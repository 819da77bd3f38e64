import AuraOS.Kernel.Keyboard.Interrupts

/-!
# The decoder against a US QWERTY keyboard

The reference decoder knows the keys of the layout and which of the two Shift keys are held (`refDecode`).  The
decoder of the driver has one flag for both keys, which the release of either clears, and it treats Caps Lock like
a Shift key that is held, for all keys.  So it types what the reference decoder does exactly as long as no key is
hit in one of these two situations, or in both at once, when they cancel out (`appends_refDecode_iff`).
-/

namespace AuraOS.Kernel.Keyboard

open AuraOS.Lib

/-! ### The layout -/

/-- A key with its two characters; those of a letter are the lower and the upper case. -/
inductive Key where
  | letter (c : Char)
  | symbol (plain shifted : Char)
  deriving DecidableEq

def letters (cs : List Char) : List Key := cs.map Key.letter

def symbols (plain shifted : List Char) : List Key := List.zipWith Key.symbol plain shifted

/-- The rows of the keyboard: the make code of the first key, and the keys from there on. -/
def usQwerty : List (ℕ × List Key) :=
  [(0x02, symbols ['1', '2', '3', '4', '5', '6', '7', '8', '9', '0', '-', '=']
      ['!', '@', '#', '$', '%', '^', '&', '*', '(', ')', '_', '+']),
    (0x0E, symbols ['\x08', '\t'] ['\x08', '\t']),
    (0x10, letters ['q', 'w', 'e', 'r', 't', 'y', 'u', 'i', 'o', 'p']),
    (0x1A, symbols ['[', ']', '\n'] ['\x7b', '\x7d', '\n']),
    (0x1E, letters ['a', 's', 'd', 'f', 'g', 'h', 'j', 'k', 'l']),
    (0x27, symbols [';', '\x27', '\x60'] [':', '\x22', '~']),
    (0x2B, symbols ['\x5c'] ['|']),
    (0x2C, letters ['z', 'x', 'c', 'v', 'b', 'n', 'm']),
    (0x33, symbols [',', '.', '/'] ['<', '>', '?']),
    (0x37, symbols ['*'] ['*']),
    (0x39, symbols [' '] [' '])]

/-- The key with the make code `sc`, if it is one that types. -/
def keyAt (sc : UInt8) : Option Key :=
  usQwerty.findSome? fun row => if row.1 ≤ sc.toNat then row.2[sc.toNat - row.1]? else none

namespace Key

/-- The character without Shift. -/
def plain : Key → UInt8
  | letter c => c.toUInt8
  | symbol c _ => c.toUInt8

/-- The character with Shift. -/
def shifted : Key → UInt8
  | letter c => c.toUpper.toUInt8
  | symbol _ c => c.toUInt8

def isLetter : Key → Bool
  | letter _ => true
  | symbol _ _ => false

end Key

/-! ### The reference decoder -/

/-- The Shift keys that are held, and Caps Lock. -/
structure Modifiers where
  left : Bool
  right : Bool
  caps : Bool
  deriving DecidableEq

/-- No key is held, and Caps Lock is off. -/
def Modifiers.none : Modifiers := ⟨false, false, false⟩

/-- A Shift key is held. -/
def Modifiers.shift (m : Modifiers) : Bool := m.left || m.right

/-- The key types its second character: Caps Lock inverts the letters, and nothing else. -/
def Modifiers.second (m : Modifiers) (k : Key) : Bool := if k.isLetter then m.shift ^^ m.caps else m.shift

/-- One scancode: the modifiers after it, and the character that it types. -/
def refScancode (sc : UInt8) (m : Modifiers) : Modifiers × Option UInt8 :=
  if sc = scLshiftPress then ({ m with left := true }, .none)
  else if sc = scLshiftRelease then ({ m with left := false }, .none)
  else if sc = scRshiftPress then ({ m with right := true }, .none)
  else if sc = scRshiftRelease then ({ m with right := false }, .none)
  else if sc = scCapslockPress then ({ m with caps := !m.caps }, .none)
  else (m, (keyAt sc).map fun k => if m.second k then k.shifted else k.plain)

/-- **The characters that the reference decoder types.** -/
def refDecode : List UInt8 → Modifiers → List UInt8
  | [], _ => []
  | sc :: scs, m => (refScancode sc m).2.toList ++ refDecode scs (refScancode sc m).1

/-- The modifiers after the scancodes. -/
def refAfter (scs : List UInt8) (m : Modifiers) : Modifiers := scs.foldl (fun m sc => (refScancode sc m).1) m

/-! ### The tables -/

section Tables

/-- **The tables hold the layout.** -/
theorem tables_eq : ∀ n < 58,
    scancodeAscii.getD n 0 = ((keyAt (UInt8.ofNat n)).map Key.plain).getD 0 ∧
      scancodeAsciiShift.getD n 0 = ((keyAt (UInt8.ofNat n)).map Key.shifted).getD 0 ∧
      UInt8.ofNat n &&& 0x80 = 0 := by
  decide +kernel

/-- The rows end below the code 58, and no character is NUL. -/
theorem usQwerty_rows : ∀ row ∈ usQwerty, row.1 + row.2.length ≤ 58 ∧
    ∀ k ∈ row.2, k.plain ≠ 0 ∧ k.shifted ≠ 0 := by
  decide +kernel

variable {sc : UInt8} {key : KeyState} {k : Key}

/-- A key is in one of the rows. -/
theorem mem_row_of_keyAt (h : keyAt sc = some k) :
    ∃ row ∈ usQwerty, sc.toNat < row.1 + row.2.length ∧ k ∈ row.2 := by
  obtain ⟨row, hrow, hat⟩ := List.exists_of_findSome?_eq_some h
  split at hat
  · obtain ⟨hlt, rfl⟩ := List.getElem?_eq_some_iff.1 hat
    exact ⟨row, hrow, by omega, List.getElem_mem hlt⟩
  · cases hat

theorem keyAt_eq_none (h : 58 ≤ sc.toNat) : keyAt sc = none := by
  refine Option.eq_none_iff_forall_ne_some.2 fun k hk => ?_
  obtain ⟨row, hrow, hlt, -⟩ := mem_row_of_keyAt hk
  have hend := (usQwerty_rows row hrow).1
  omega

/-- No character is NUL. -/
theorem key_ne_zero (h : keyAt sc = some k) : k.plain ≠ 0 ∧ k.shifted ≠ 0 := by
  obtain ⟨row, hrow, -, hmem⟩ := mem_row_of_keyAt h
  exact (usQwerty_rows row hrow).2 k hmem

/-- The code is one of a Shift key. -/
def IsShift (sc : UInt8) : Prop :=
  sc = scLshiftPress ∨ sc = scRshiftPress ∨ sc = scLshiftRelease ∨ sc = scRshiftRelease

instance (sc : UInt8) : Decidable (IsShift sc) := by unfold IsShift; infer_instance

theorem scancode_shiftPress (h : sc = scLshiftPress ∨ sc = scRshiftPress) (key : KeyState) :
    scancode sc key = ({ key with shiftHeld := true }, 0) :=
  if_pos h

theorem scancode_shiftRelease (h : sc = scLshiftRelease ∨ sc = scRshiftRelease) (key : KeyState) :
    scancode sc key = ({ key with shiftHeld := false }, 0) := by
  rcases h with rfl | rfl <;> rfl

theorem refScancode_lshiftPress (m : Modifiers) :
    refScancode scLshiftPress m = ({ m with left := true }, none) :=
  rfl

theorem refScancode_rshiftPress (m : Modifiers) :
    refScancode scRshiftPress m = ({ m with right := true }, none) :=
  rfl

/-- **A code that is none of a modifier key**, in the driver. -/
theorem scancode_key (hs : ¬IsShift sc) (hc : sc ≠ scCapslockPress) (key : KeyState) :
    scancode sc key = (key, ((keyAt sc).map fun k =>
      if key.shiftHeld ^^ key.capsActive then k.shifted else k.plain).getD 0) := by
  have hof : UInt8.ofNat sc.toNat = sc := UInt8.ofNat_toNat
  unfold IsShift at hs
  unfold scancode
  rw [if_neg (by tauto), if_neg (by tauto), if_neg hc]
  by_cases h58 : sc.toNat < 58
  · obtain ⟨h1, h2, h3⟩ := tables_eq sc.toNat h58
    rw [hof] at h1 h2 h3
    have hE0 : sc ≠ 0xE0 := by
      rintro rfl
      exact absurd h58 (by decide)
    rw [if_neg (not_not_intro h3), if_neg hE0, if_neg (Nat.not_le.2 h58)]
    dsimp only
    rw [h1, h2]
    cases keyAt sc <;> cases key.shiftHeld ^^ key.capsActive <;> rfl
  · rw [keyAt_eq_none (Nat.le_of_not_lt h58)]
    by_cases hbit : sc &&& 0x80 ≠ 0
    · rw [if_pos hbit]
      rfl
    · rw [if_neg hbit]
      by_cases hE0 : sc = 0xE0
      · rw [if_pos hE0]
        rfl
      · rw [if_neg hE0, if_pos (Nat.le_of_not_lt h58)]
        rfl

theorem refScancode_key (hs : ¬IsShift sc) (hc : sc ≠ scCapslockPress) (m : Modifiers) :
    refScancode sc m = (m, (keyAt sc).map fun k => if m.second k then k.shifted else k.plain) := by
  unfold IsShift at hs
  unfold refScancode
  rw [if_neg (by tauto), if_neg (by tauto), if_neg (by tauto), if_neg (by tauto), if_neg hc]

end Tables

/-! ### The two decoders -/

/-- The last code of a Shift key. -/
def lastShift (scs : List UInt8) : Option UInt8 := (scs.filter fun sc => IsShift sc).getLast?

/-- A Shift key was the last to be released, and the other one is still held. -/
def HalfReleased (scs : List UInt8) : Prop :=
  (refAfter scs .none).shift = true ∧
    (lastShift scs = some scLshiftRelease ∨ lastShift scs = some scRshiftRelease)

/-- A key is hit that Caps Lock must leave alone. -/
def CapsOnSymbol (scs : List UInt8) (k : Key) : Prop :=
  (refAfter scs .none).caps = true ∧ k.isLetter = false

/-- Whenever a key with two different characters is hit, both of the two situations are given, or neither. -/
def Undisturbed (scs : List UInt8) : Prop :=
  ∀ pre sc post, scs = pre ++ sc :: post → ∀ k, keyAt sc = some k → k.plain ≠ k.shifted →
    (HalfReleased pre ↔ CapsOnSymbol pre k)

/-- The state of the driver after the codes `scs`: its Shift flag says whether the last code of a Shift key was a
press. -/
structure Follows (scs : List UInt8) (key : KeyState) (m : Modifiers) : Prop where
  caps : key.capsActive = m.caps
  held : key.shiftHeld = true → m.shift = true
  flag : key.shiftHeld = false ↔
    lastShift scs = none ∨ lastShift scs = some scLshiftRelease ∨ lastShift scs = some scRshiftRelease
  never : lastShift scs = none → m.shift = false

section Decoders

variable {scs : List UInt8} {sc : UInt8} {key : KeyState} {m : Modifiers} {k : Key}

theorem lastShift_of_isShift (h : IsShift sc) (scs : List UInt8) : lastShift (scs ++ [sc]) = some sc := by
  simp [lastShift, List.filter_append, h]

theorem lastShift_of_not (h : ¬IsShift sc) (scs : List UInt8) : lastShift (scs ++ [sc]) = lastShift scs := by
  simp [lastShift, List.filter_append, h]

theorem follows_nil : Follows [] ⟨false, false⟩ .none := by
  constructor <;> simp [lastShift, Modifiers.none, Modifiers.shift]

/-- **One code** keeps the two states together. -/
theorem Follows.step (h : Follows scs key m) (sc : UInt8) :
    Follows (scs ++ [sc]) (scancode sc key).1 (refScancode sc m).1 := by
  by_cases hs : IsShift sc
  · have hlast := lastShift_of_isShift hs scs
    rcases hs with rfl | rfl | rfl | rfl
    · rw [scancode_shiftPress (Or.inl rfl), refScancode_lshiftPress]
      refine ⟨h.caps, ?_, ?_, ?_⟩
      all_goals simp [hlast, Modifiers.shift, scLshiftPress, scLshiftRelease, scRshiftRelease]
    · rw [scancode_shiftPress (Or.inr rfl), refScancode_rshiftPress]
      refine ⟨h.caps, ?_, ?_, ?_⟩
      all_goals simp [hlast, Modifiers.shift, scRshiftPress, scLshiftRelease, scRshiftRelease]
    · rw [scancode_shiftRelease (Or.inl rfl)]
      refine ⟨h.caps, ?_, ?_, ?_⟩
      all_goals simp [hlast]
    · rw [scancode_shiftRelease (Or.inr rfl)]
      refine ⟨h.caps, ?_, ?_, ?_⟩
      all_goals simp [hlast]
  · have hlast := lastShift_of_not hs scs
    by_cases hc : sc = scCapslockPress
    · subst hc
      refine ⟨congrArg not h.caps, h.held, ?_, ?_⟩
      · rw [hlast]
        exact h.flag
      · rw [hlast]
        exact h.never
    · rw [scancode_key hs hc, refScancode_key hs hc]
      refine ⟨h.caps, h.held, ?_, ?_⟩
      · rw [hlast]
        exact h.flag
      · rw [hlast]
        exact h.never

theorem keysAfter_append (scs : List UInt8) (sc : UInt8) (key : KeyState) :
    keysAfter (scs ++ [sc]) key = (scancode sc (keysAfter scs key)).1 := by
  simp [keysAfter]

theorem refAfter_append (scs : List UInt8) (sc : UInt8) (m : Modifiers) :
    refAfter (scs ++ [sc]) m = (refScancode sc (refAfter scs m)).1 := by
  simp [refAfter]

/-- The run lemma. -/
theorem follows (scs : List UInt8) : Follows scs (keysAfter scs ⟨false, false⟩) (refAfter scs .none) := by
  induction scs using List.reverseRecOn with
  | nil => exact follows_nil
  | append_singleton scs sc ih =>
    rw [keysAfter_append, refAfter_append]
    exact ih.step sc

/-- The flag is wrong exactly if a Shift key was half released. -/
theorem halfReleased_iff : HalfReleased scs ↔
    (refAfter scs .none).shift = true ∧ (keysAfter scs ⟨false, false⟩).shiftHeld = false := by
  have h := follows scs
  unfold HalfReleased
  rw [h.flag]
  constructor
  · rintro ⟨h1, h2⟩
    exact ⟨h1, Or.inr h2⟩
  · rintro ⟨h1, h2 | h2⟩
    · rw [h.never h2] at h1
      cases h1
    · exact ⟨h1, h2⟩

/-- **The two decoders choose the same character** of a key. -/
theorem second_eq_iff (k : Key) :
    ((keysAfter scs ⟨false, false⟩).shiftHeld ^^ (keysAfter scs ⟨false, false⟩).capsActive) =
      (refAfter scs .none).second k ↔ (HalfReleased scs ↔ CapsOnSymbol scs k) := by
  have h := follows scs
  have hheld := h.held
  rw [halfReleased_iff]
  unfold CapsOnSymbol Modifiers.second
  rw [h.caps]
  generalize (keysAfter scs ⟨false, false⟩).shiftHeld = flag at hheld ⊢
  generalize (refAfter scs .none).shift = held at hheld ⊢
  generalize (refAfter scs .none).caps = caps
  revert hheld
  cases flag <;> cases held <;> cases caps <;> cases k.isLetter <;> simp

/-- What the driver types at one code. -/
def typedAt (sc : UInt8) (key : KeyState) : Option UInt8 :=
  if (scancode sc key).2 ≠ 0 then some (scancode sc key).2 else .none

/-- The two decoders type at the same codes. -/
theorem typedAt_isSome (sc : UInt8) (key : KeyState) (m : Modifiers) :
    (typedAt sc key).isSome = (refScancode sc m).2.isSome := by
  by_cases hs : IsShift sc
  · rcases hs with rfl | rfl | rfl | rfl <;> rfl
  by_cases hc : sc = scCapslockPress
  · subst hc
    rfl
  unfold typedAt
  rw [scancode_key hs hc, refScancode_key hs hc]
  cases hk : keyAt sc with
  | none => simp
  | some k =>
    obtain ⟨h1, h2⟩ := key_ne_zero hk
    cases key.shiftHeld ^^ key.capsActive <;> simp [h1, h2]

/-- **The same character is typed**, unless a key with two characters is hit in one of the two situations. -/
theorem typedAt_eq_iff (scs : List UInt8) (sc : UInt8) :
    typedAt sc (keysAfter scs ⟨false, false⟩) = (refScancode sc (refAfter scs .none)).2 ↔
      ∀ k, keyAt sc = some k → k.plain ≠ k.shifted → (HalfReleased scs ↔ CapsOnSymbol scs k) := by
  by_cases hs : IsShift sc
  · rcases hs with rfl | rfl | rfl | rfl <;> exact iff_of_true rfl nofun
  by_cases hc : sc = scCapslockPress
  · subst hc
    exact iff_of_true rfl nofun
  unfold typedAt
  rw [scancode_key hs hc, refScancode_key hs hc]
  cases hk : keyAt sc with
  | none => exact iff_of_true (by simp) nofun
  | some k =>
    obtain ⟨h1, h2⟩ := key_ne_zero hk
    simp only [Option.map_some, Option.some.injEq, forall_eq', ← second_eq_iff]
    generalize ((keysAfter scs ⟨false, false⟩).shiftHeld ^^ (keysAfter scs ⟨false, false⟩).capsActive) = b
    generalize (refAfter scs .none).second k = b'
    by_cases heq : k.plain = k.shifted
    · simp [heq, h2]
    · cases b <;> cases b' <;> simp [h1, h2, heq, Ne.symm heq]

theorem typed_cons (sc : UInt8) (scs : List UInt8) (key : KeyState) :
    typed (sc :: scs) key = (typedAt sc key).toList ++ typed scs (scancode sc key).1 := by
  conv_lhs => unfold typed
  unfold typedAt
  dsimp only
  split <;> rfl

/-- Behind the codes `pre` the decoders type the same exactly if they do at each of the further codes. -/
theorem typed_eq_iff_from (pre scs : List UInt8) :
    typed scs (keysAfter pre ⟨false, false⟩) = refDecode scs (refAfter pre .none) ↔
      ∀ mid sc post, scs = mid ++ sc :: post →
        typedAt sc (keysAfter (pre ++ mid) ⟨false, false⟩) =
          (refScancode sc (refAfter (pre ++ mid) .none)).2 := by
  induction scs generalizing pre with
  | nil =>
    refine iff_of_true rfl ?_
    intro mid sc post h
    simp at h
  | cons sc scs ih =>
    have ih' := ih (pre ++ [sc])
    rw [keysAfter_append, refAfter_append] at ih'
    have hsome := typedAt_isSome sc (keysAfter pre ⟨false, false⟩) (refAfter pre .none)
    have hsplit : typed (sc :: scs) (keysAfter pre ⟨false, false⟩) =
          refDecode (sc :: scs) (refAfter pre .none) ↔
        typedAt sc (keysAfter pre ⟨false, false⟩) = (refScancode sc (refAfter pre .none)).2 ∧
          typed scs (scancode sc (keysAfter pre ⟨false, false⟩)).1 =
            refDecode scs (refScancode sc (refAfter pre .none)).1 := by
      rw [typed_cons, refDecode]
      generalize typedAt sc (keysAfter pre ⟨false, false⟩) = a at hsome ⊢
      generalize (refScancode sc (refAfter pre .none)).2 = b at hsome ⊢
      cases a <;> cases b <;> simp at hsome ⊢
    rw [hsplit, ih']
    constructor
    · rintro ⟨hhead, htail⟩ mid sc' post h
      cases mid with
      | nil =>
        obtain ⟨rfl, -⟩ := List.cons.inj h
        rw [List.append_nil]
        exact hhead
      | cons c mid =>
        obtain ⟨rfl, hrest⟩ := List.cons.inj h
        have := htail mid sc' post hrest
        rwa [List.append_assoc] at this
    · intro h
      constructor
      · have := h [] sc scs rfl
        rwa [List.append_nil] at this
      · intro mid sc' post hrest
        have := h (sc :: mid) sc' post (by rw [hrest]; rfl)
        rwa [List.append_assoc]

/-- **The decoder of the driver is the reference decoder** on the undisturbed sequences, and on no others. -/
theorem typed_eq_iff (scs : List UInt8) :
    typed scs ⟨false, false⟩ = refDecode scs .none ↔ Undisturbed scs := by
  have h := typed_eq_iff_from [] scs
  simp only [List.nil_append, typedAt_eq_iff] at h
  exact h

theorem typed_append (scs scs' : List UInt8) (key : KeyState) :
    typed (scs ++ scs') key = typed scs key ++ typed scs' (keysAfter scs key) := by
  induction scs generalizing key with
  | nil => rfl
  | cons sc scs ih =>
    rw [List.cons_append, typed_cons, typed_cons, ih, List.append_assoc]
    rfl

end Decoders

/-! ### The driver -/

inductive Call where
  | poll (scs : List UInt8)
  | getchar
  | push (c : UInt8)

namespace Call

def run : Call → State → State
  | poll scs, s => keyboardPoll scs s
  | getchar, s => (keyboardGetchar s).2
  | push c, s => keyboardPush c s

def scancodes : Call → List UInt8
  | poll scs => scs
  | getchar | push _ => []

/-- No `kbPush` of a poll finds the ring full. -/
def Room : Call → State → Prop
  | poll scs, s => s.ring.count + (typed scs s.key).length ≤ kbBufferSize
  | getchar, _ | push _, _ => True

/-- The call appends `cs` to the ring, as a poll. -/
def Appends : Call → State → List UInt8 → Prop
  | poll scs, s, cs => (keyboardPoll scs s).ring.contents = s.ring.contents ++ cs
  | getchar, _, cs | push _, _, cs => cs = []

end Call

/-- The scancodes of all polls. -/
def scancodes (calls : List Call) : List UInt8 := calls.flatMap Call.scancodes

/-- No poll finds the ring full. -/
def Room : List Call → State → Prop
  | [], _ => True
  | c :: calls, s => c.Room s ∧ Room calls (c.run s)

instance (c : Call) (s : State) : Decidable (c.Room s) :=
  match c with
  | .poll scs => inferInstanceAs (Decidable (s.ring.count + (typed scs s.key).length ≤ kbBufferSize))
  | .getchar | .push _ => isTrue trivial

instance decidableRoom : (calls : List Call) → (s : State) → Decidable (Room calls s)
  | [], _ => isTrue trivial
  | c :: calls, s =>
    have := decidableRoom calls (c.run s)
    inferInstanceAs (Decidable (c.Room s ∧ Room calls (c.run s)))

/-- **The polls append the characters** `cs`. -/
def Appends : List Call → State → List UInt8 → Prop
  | [], _, cs => cs = []
  | c :: calls, s, cs => ∃ cs₁ cs₂, cs = cs₁ ++ cs₂ ∧ c.Appends s cs₁ ∧ Appends calls (c.run s) cs₂

/-- The ring of the driver, between two calls: it puts at `head` and takes at `tail`. -/
abbrev IsRing (k : KbRing) (r : Ring UInt8 kbBufferSize) : Prop := r.Is k.buf k.tail k.head k.count

section Driver

variable {k : KbRing} {r : Ring UInt8 kbBufferSize} {s : State} {cs : List UInt8} {calls : List Call}

theorem IsRing.contents (h : IsRing k r) : k.contents = r.toList := h.toList_eq.symm

theorem isRing_init (s : State) :
    IsRing (keyboardInit s).ring (Ring.empty s.ring.buf (by decide)) := Ring.is_empty s.ring.buf _

theorem IsRing.kbPush (h : IsRing k r) (hc : r.count < kbBufferSize) (c : UInt8) :
    IsRing (Keyboard.kbPush c k) (r.push c hc) := by
  rw [kbPush_of_lt c (h.count ▸ hc)]
  exact h.push hc c

theorem IsRing.kbPushes (h : IsRing k r) (hc : r.count + cs.length ≤ kbBufferSize) :
    ∃ r', IsRing (Keyboard.kbPushes cs k) r' ∧ r'.toList = r.toList ++ cs := by
  induction cs generalizing k r with
  | nil => exact ⟨r, h, (List.append_nil _).symm⟩
  | cons c cs ih =>
    rw [List.length_cons] at hc
    have hlt : r.count < kbBufferSize := by omega
    have hrest : (r.push c hlt).count + cs.length ≤ kbBufferSize := by
      rw [Ring.count_push]
      omega
    obtain ⟨r', hr', hlist⟩ := ih (h.kbPush hlt c) hrest
    refine ⟨r', hr', ?_⟩
    rw [hlist, Ring.toList_push, List.append_assoc]
    rfl

/-- **Taking a character** takes the oldest one. -/
theorem isRing_keyboardGetchar (h : IsRing s.ring r) (h0 : s.ring.count ≠ 0) :
    ∃ r', IsRing (keyboardGetchar s).2.ring r' ∧ r.toList = (keyboardGetchar s).1 :: r'.toList := by
  have hpos : 0 < r.count := Nat.pos_of_ne_zero (h.count ▸ h0)
  have hle := r.count_le
  have h32 : kbBufferSize = 32 := rfl
  have hpop := h.pop hpos
  unfold keyboardGetchar
  rw [if_neg h0]
  refine ⟨r.pop hpos, ⟨hpop.buf, hpop.head, hpop.tail, ?_⟩, h.toList_pop hpos⟩
  change (s.ring.count + 2 ^ 8 - 1) % 2 ^ 8 = r.count - 1
  rw [h.count]
  omega

/-- **A call** keeps the ring. -/
theorem IsRing.run (h : IsRing s.ring r) (c : Call) (hroom : c.Room s) : ∃ r', IsRing (c.run s).ring r' := by
  cases c with
  | poll scs =>
    simp only [Call.run, keyboardPoll_eq]
    simp only [Call.Room] at hroom
    rw [h.count] at hroom
    obtain ⟨r', hr', -⟩ := h.kbPushes hroom
    exact ⟨r', hr'⟩
  | getchar =>
    by_cases h0 : s.ring.count = 0
    · simp only [Call.run, keyboardGetchar, if_pos h0]
      exact ⟨r, h⟩
    · obtain ⟨r', hr', -⟩ := isRing_keyboardGetchar h h0
      exact ⟨r', hr'⟩
  | push c =>
    simp only [Call.run, keyboardPush]
    by_cases hfull : kbBufferSize ≤ s.ring.count
    · rw [kbPush_of_full c hfull]
      exact ⟨r, h⟩
    · exact ⟨_, h.kbPush (h.count ▸ Nat.lt_of_not_le hfull) c⟩

/-- **What a call appends.** -/
theorem Call.appends_iff (h : IsRing s.ring r) (c : Call) (hroom : c.Room s) :
    c.Appends s cs ↔ cs = typed c.scancodes s.key := by
  cases c with
  | poll scs =>
    simp only [Call.Appends, keyboardPoll_eq]
    simp only [Call.Room] at hroom
    rw [h.count] at hroom
    obtain ⟨r', hr', hlist⟩ := h.kbPushes hroom
    rw [hr'.contents, h.contents, hlist]
    exact List.append_right_inj _ |>.trans eq_comm
  | getchar => exact Iff.rfl
  | push c => exact Iff.rfl

theorem Call.run_key (c : Call) (s : State) : (c.run s).key = keysAfter c.scancodes s.key := by
  cases c with
  | poll scs =>
    simp only [Call.run, keyboardPoll_eq]
    rfl
  | getchar =>
    simp only [Call.run, keyboardGetchar]
    split <;> rfl
  | push c => rfl

/-- **The polls of a run append** what the decoder makes of all their scancodes together. -/
theorem appends_iff (h : IsRing s.ring r) (hroom : Room calls s) :
    Appends calls s cs ↔ cs = typed (scancodes calls) s.key := by
  induction calls generalizing s r cs with
  | nil => exact Iff.rfl
  | cons c calls ih =>
    obtain ⟨hc, hcalls⟩ := hroom
    obtain ⟨r', hr'⟩ := h.run c hc
    have hsplit : typed (scancodes (c :: calls)) s.key =
        typed c.scancodes s.key ++ typed (scancodes calls) (c.run s).key := by
      rw [Call.run_key, ← typed_append]
      rfl
    unfold Appends
    rw [hsplit]
    constructor
    · rintro ⟨cs₁, cs₂, rfl, h₁, h₂⟩
      rw [(c.appends_iff h hc).1 h₁, (ih hr' hcalls).1 h₂]
    · intro hcs
      exact ⟨_, _, hcs, (c.appends_iff h hc).2 rfl, (ih hr' hcalls).2 rfl⟩

end Driver

/-- **The driver against the reference decoder**, from the initialisation on and while there is room: the polls
append what the reference decoder types exactly if the scancodes are undisturbed. -/
theorem appends_refDecode_iff (s₀ : State) (calls : List Call) (hroom : Room calls (keyboardInit s₀)) :
    Appends calls (keyboardInit s₀) (refDecode (scancodes calls) .none) ↔ Undisturbed (scancodes calls) := by
  rw [appends_iff (isRing_init s₀) hroom, ← typed_eq_iff]
  exact eq_comm

/-- Shift, the key A, and Shift released; the character is read, and a digit is typed with Caps Lock on and Shift
half released. -/
def shiftRun : List Call :=
  [.poll [0x2A, 0x1E, 0xAA], .getchar, .poll [0x3A, 0x36, 0x2A, 0xAA, 0x02], .push 0x21]

theorem room_shiftRun : Room shiftRun (keyboardInit blank) := by decide

theorem shiftRun_appends_refDecode :
    Appends shiftRun (keyboardInit blank) (refDecode (scancodes shiftRun) .none) ↔
      Undisturbed (scancodes shiftRun) :=
  appends_refDecode_iff blank shiftRun room_shiftRun

/-- With Caps Lock on the driver types `!` for the key 1, and the reference decoder `1`. -/
theorem capsDigit_not_appends : Room [.poll [0x3A, 0x02]] (keyboardInit blank) ∧
    ¬Appends [.poll [0x3A, 0x02]] (keyboardInit blank) (refDecode (scancodes [.poll [0x3A, 0x02]]) .none) := by
  have hroom : Room [.poll [0x3A, 0x02]] (keyboardInit blank) := by decide
  refine ⟨hroom, ?_⟩
  rw [appends_iff (isRing_init blank) hroom]
  decide

/-- So it does when one of two Shift keys is released: `a` in place of `A`. -/
example : typed [0x2A, 0x36, 0xAA, 0x1E] ⟨false, false⟩ = bytes ['a'] ∧
    refDecode [0x2A, 0x36, 0xAA, 0x1E] .none = bytes ['A'] := by
  decide

end AuraOS.Kernel.Keyboard
