import AuraOS.Kernel.Keyboard.Defs
import AuraOS.Lib.Ring
import AuraOS.Lib.Steps

/-!
# The keyboard ring under interrupts

The main context calls `keyboard_push` and `keyboard_getchar`, and the handler of IRQ 1 may run
`keyboard_poll` between any two of their statements.  The state says where the main context stands, and logs
the characters that were accepted and returned and the slots that wait to be read.

The ring keeps its characters exactly as long as the handler stores nothing between the two stores of a push,
and leaves it room for the character under way (`Fits`, `kept_of_fits`).
-/

namespace AuraOS.Kernel.Keyboard

open AuraOS.Lib

/-! ### What the handler pushes -/

/-- The characters that `keyboardPoll` passes to `kbPush`. -/
def typed : List UInt8 → KeyState → List UInt8
  | [], _ => []
  | sc :: scs, key =>
    let (key, c) := scancode sc key
    if c ≠ 0 then c :: typed scs key else typed scs key

/-- The modifier keys after `keyboardPoll`. -/
def keysAfter (scs : List UInt8) (key : KeyState) : KeyState :=
  scs.foldl (fun key sc => (scancode sc key).1) key

/-- `kbPush` of one character after the other. -/
def kbPushes (cs : List UInt8) (k : KbRing) : KbRing := cs.foldl (fun k c => kbPush c k) k

/-- **The handler** decodes the scancodes and pushes the characters: the two do not depend on each other. -/
theorem keyboardPoll_eq (scs : List UInt8) (s : State) :
    keyboardPoll scs s = ⟨keysAfter scs s.key, kbPushes (typed scs s.key) s.ring⟩ := by
  induction scs generalizing s with
  | nil => rfl
  | cons sc scs ih =>
    unfold keyboardPoll typed
    dsimp only
    rw [ih]
    dsimp only
    split <;> rfl

/-! ### The system -/

/-- Where the main context stands: between two calls, or in front of a statement of `kbPush` (`store`,
`nextHead`, `incCount`) or of `keyboardGetchar` (the others). -/
inductive Ctl where
  | idle
  | store (c : UInt8)
  | nextHead
  | incCount
  | read
  | nextTail (c : UInt8)
  | decCount (c : UInt8)
  | ret (c : UInt8)

/-- What has happened to the ring. -/
structure Log where
  /-- The characters stored so far, in their order. -/
  accepted : List UInt8
  /-- The results of `keyboardGetchar` from a ring that is not empty. -/
  returned : List UInt8
  /-- The slots that were stored to and not read since. -/
  unread : List ℕ
  /-- A store has hit one of these. -/
  overwritten : Bool

namespace Log

/-- `c` is stored to `slot`. -/
def store (slot : ℕ) (c : UInt8) (g : Log) : Log :=
  { g with
    accepted := g.accepted ++ [c]
    unread := g.unread ++ [slot]
    overwritten := g.overwritten || decide (slot ∈ g.unread) }

/-- `slot` is read. -/
def read (slot : ℕ) (g : Log) : Log := { g with unread := g.unread.erase slot }

/-- `c` is returned. -/
def ret (c : UInt8) (g : Log) : Log := { g with returned := g.returned ++ [c] }

/-- The log of `kbPushes`. -/
def pushes : List UInt8 → KbRing → Log → Log
  | [], _, g => g
  | c :: cs, k, g => pushes cs (kbPush c k) (if kbBufferSize ≤ k.count then g else g.store k.head c)

end Log

structure Cpu where
  kbd : State
  ctl : Ctl
  log : Log

/-- After `keyboardInit`. -/
def Cpu.start (s : State) : Cpu := ⟨keyboardInit s, .idle, ⟨[], [], [], false⟩⟩

inductive Act where
  /-- The main context calls `keyboardPush`, and passes its check or returns. -/
  | push (c : UInt8)
  /-- The main context calls `keyboardGetchar`, likewise. -/
  | getchar
  /-- The main context executes the next statement of the call. -/
  | next
  /-- The interrupt, with the scancodes that are pending. -/
  | irq (scs : List UInt8)

/-- The steps. -/
inductive Step : Cpu → Act → Cpu → Prop
  | irq (s : State) (ctl : Ctl) (g : Log) (scs : List UInt8) :
    Step ⟨s, ctl, g⟩ (.irq scs) ⟨keyboardPoll scs s, ctl, g.pushes (typed scs s.key) s.ring⟩
  | full (s : State) (g : Log) (c : UInt8) : kbBufferSize ≤ s.ring.count →
    Step ⟨s, .idle, g⟩ (.push c) ⟨s, .idle, g⟩
  | push (s : State) (g : Log) (c : UInt8) : s.ring.count < kbBufferSize →
    Step ⟨s, .idle, g⟩ (.push c) ⟨s, .store c, g⟩
  | store (s : State) (g : Log) (c : UInt8) :
    Step ⟨s, .store c, g⟩ .next ⟨{ s with ring := s.ring.store c }, .nextHead, g.store s.ring.head c⟩
  | nextHead (s : State) (g : Log) :
    Step ⟨s, .nextHead, g⟩ .next ⟨{ s with ring := s.ring.nextHead }, .incCount, g⟩
  | incCount (s : State) (g : Log) :
    Step ⟨s, .incCount, g⟩ .next ⟨{ s with ring := s.ring.incCount }, .idle, g⟩
  | empty (s : State) (g : Log) : s.ring.count = 0 → Step ⟨s, .idle, g⟩ .getchar ⟨s, .idle, g⟩
  | getchar (s : State) (g : Log) : s.ring.count ≠ 0 → Step ⟨s, .idle, g⟩ .getchar ⟨s, .read, g⟩
  | read (s : State) (g : Log) :
    Step ⟨s, .read, g⟩ .next ⟨s, .nextTail (s.ring.buf s.ring.tail), g.read s.ring.tail⟩
  | nextTail (s : State) (g : Log) (c : UInt8) :
    Step ⟨s, .nextTail c, g⟩ .next ⟨{ s with ring := s.ring.nextTail }, .decCount c, g⟩
  | decCount (s : State) (g : Log) (c : UInt8) :
    Step ⟨s, .decCount c, g⟩ .next ⟨{ s with ring := s.ring.decCount }, .ret c, g⟩
  | ret (s : State) (g : Log) (c : UInt8) : Step ⟨s, .ret c, g⟩ .next ⟨s, .idle, g.ret c⟩

/-- **The statements of a push**, when nothing interrupts them, are `keyboardPush`. -/
theorem run_keyboardPush (s : State) (g : Log) (c : UInt8) :
    ∃ as g', Run Step ⟨s, .idle, g⟩ (.push c :: as) ⟨keyboardPush c s, .idle, g'⟩ := by
  unfold keyboardPush kbPush
  by_cases hfull : kbBufferSize ≤ s.ring.count
  · rw [if_pos hfull]
    exact ⟨[], g, Run.cons (Step.full s g c hfull) (Run.nil _)⟩
  · rw [if_neg hfull]
    refine ⟨[.next, .next, .next], g.store s.ring.head c, Run.cons (Step.push s g c (Nat.lt_of_not_le hfull)) ?_⟩
    exact Run.cons (Step.store ..) (Run.cons (Step.nextHead ..) (Run.cons (Step.incCount ..) (Run.nil _)))

/-- **The statements of `keyboardGetchar`**, when nothing interrupts them. -/
theorem run_keyboardGetchar (s : State) (g : Log) :
    ∃ as g', Run Step ⟨s, .idle, g⟩ (.getchar :: as) ⟨(keyboardGetchar s).2, .idle, g'⟩ ∧
      g'.returned = if s.ring.count = 0 then g.returned else g.returned ++ [(keyboardGetchar s).1] := by
  unfold keyboardGetchar
  by_cases hempty : s.ring.count = 0
  · rw [if_pos hempty, if_pos hempty]
    exact ⟨[], g, Run.cons (Step.empty s g hempty) (Run.nil _), rfl⟩
  · rw [if_neg hempty, if_neg hempty]
    refine ⟨[.next, .next, .next, .next], (g.read s.ring.tail).ret (s.ring.buf s.ring.tail),
      Run.cons (Step.getchar s g hempty) ?_, rfl⟩
    exact Run.cons (Step.read ..) (Run.cons (Step.nextTail ..)
      (Run.cons (Step.decCount ..) (Run.cons (Step.ret ..) (Run.nil _))))

/-! ### The invariant -/

/-- The characters in the ring, the oldest first. -/
def KbRing.contents (k : KbRing) : List UInt8 :=
  (List.range k.count).map fun i => k.buf ((k.tail + i) % kbBufferSize)

/-- The ring keeps its characters: between two calls its indices agree and it holds what was accepted and not
yet returned, and at all times the results are the first of the characters accepted, in their order, and
nothing was overwritten before it was read. -/
structure Kept (s : Cpu) : Prop where
  count_le : s.ctl = .idle → s.kbd.ring.count ≤ kbBufferSize
  head_eq : s.ctl = .idle → (s.kbd.ring.tail + s.kbd.ring.count) % kbBufferSize = s.kbd.ring.head
  contents : s.ctl = .idle → s.log.accepted = s.log.returned ++ s.kbd.ring.contents
  inOrder : s.log.returned <+: s.log.accepted
  unread : s.log.overwritten = false

/-- The ring can take the characters `cs` where the main context stands: none between the store of a push and
the update of `kb_head`, and not so many that the one under way has no room, if the check has passed but it
is not counted. -/
def Fits : Ctl → KbRing → List UInt8 → Prop
  | .nextHead, _, cs => cs = []
  | .store _, k, cs | .incCount, k, cs => k.count + cs.length < kbBufferSize
  | _, _, _ => True

/-- What the handler pushes fits. -/
def Act.Fits : Act → Cpu → Prop
  | .irq scs, s => Keyboard.Fits s.ctl s.kbd.ring (typed scs s.kbd.key)
  | _, _ => True

instance (ctl : Ctl) (k : KbRing) (cs : List UInt8) : Decidable (Fits ctl k cs) :=
  match ctl with
  | .nextHead => inferInstanceAs (Decidable (cs = []))
  | .store _ | .incCount => inferInstanceAs (Decidable (k.count + cs.length < kbBufferSize))
  | .idle | .read | .nextTail _ | .decCount _ | .ret _ => isTrue trivial

instance (a : Act) (s : Cpu) : Decidable (a.Fits s) :=
  match a with
  | .irq scs => inferInstanceAs (Decidable (Keyboard.Fits s.ctl s.kbd.ring (typed scs s.kbd.key)))
  | .push _ | .getchar | .next => isTrue trivial

/-- The character that is read and not yet returned. -/
def Ctl.inFlight : Ctl → List UInt8
  | .nextTail c | .decCount c | .ret c => [c]
  | _ => []

/-- The indices against the ring `r` of the unread characters. -/
def Indices (r : Ring UInt8 kbBufferSize) (k : KbRing) : Ctl → Prop
  | .idle | .ret _ => k.tail = r.head ∧ k.head = r.tail ∧ k.count = r.count
  | .store _ => k.tail = r.head ∧ k.head = r.tail ∧ k.count = r.count ∧ r.count < kbBufferSize
  | .nextHead => k.tail = r.head ∧ (k.head + 1) % kbBufferSize = r.tail ∧ k.count + 1 = r.count
  | .incCount => k.tail = r.head ∧ k.head = r.tail ∧ k.count + 1 = r.count
  | .read => k.tail = r.head ∧ k.head = r.tail ∧ k.count = r.count ∧ 0 < r.count
  | .nextTail _ =>
    (k.tail + 1) % kbBufferSize = r.head ∧ k.head = r.tail ∧ k.count = r.count + 1 ∧ r.count < kbBufferSize
  | .decCount _ => k.tail = r.head ∧ k.head = r.tail ∧ k.count = r.count + 1 ∧ r.count < kbBufferSize

/-- The state holds the unread characters of `r`. -/
structure Inv (r : Ring UInt8 kbBufferSize) (s : Cpu) : Prop where
  buf : s.kbd.ring.buf = r.buf
  indices : Indices r s.kbd.ring s.ctl
  unread : s.log.unread = r.slots
  accepted : s.log.accepted = s.log.returned ++ s.ctl.inFlight ++ r.toList
  kept : s.log.overwritten = false

section Invariant

variable {r : Ring UInt8 kbBufferSize} {s t : Cpu} {key : KeyState} {k : KbRing} {ctl : Ctl} {g : Log}

theorem Inv.toKept (h : Inv r s) : Kept s := by
  obtain ⟨⟨key, k⟩, ctl, g⟩ := s
  obtain ⟨hbuf, hind, hunread, hacc, hkept⟩ := h
  refine ⟨?_, ?_, ?_, ⟨ctl.inFlight ++ r.toList, by rw [hacc, List.append_assoc]⟩, hkept⟩
  · rintro rfl
    obtain ⟨-, -, hcount⟩ := hind
    exact hcount.trans_le r.count_le
  · rintro rfl
    obtain ⟨htail, hhead, hcount⟩ := hind
    rw [htail, hhead, hcount, r.tail_eq]
  · rintro rfl
    obtain ⟨htail, hhead, hcount⟩ := hind
    dsimp only at hbuf hacc htail hcount ⊢
    unfold KbRing.contents
    rw [hacc, hbuf, htail, hcount]
    simp [Ctl.inFlight, Ring.toList]

/-- The log of a store to a ring that is not full. -/
theorem Log.store_push (hunread : g.unread = r.slots) (hkept : g.overwritten = false)
    (hlt : r.count < kbBufferSize) (c : UInt8) :
    (g.store r.tail c).unread = (r.push c hlt).slots ∧ (g.store r.tail c).overwritten = false := by
  constructor
  · change g.unread ++ [r.tail] = _
    rw [hunread, r.slots_push]
  · change (g.overwritten || decide (r.tail ∈ g.unread)) = false
    rw [hkept, hunread, decide_eq_false (r.tail_notMem_slots hlt)]
    rfl

theorem kbPush_of_lt (c : UInt8) (h : k.count < kbBufferSize) : kbPush c k =
    ⟨Function.update k.buf k.head c, (k.head + 1) % kbBufferSize, k.tail, k.count + 1⟩ := by
  have h32 : k.count < 32 := h
  unfold kbPush
  rw [if_neg (Nat.not_le.2 h)]
  unfold KbRing.incCount KbRing.nextHead KbRing.store
  dsimp only
  congr 1
  omega

/-- **A character pushed by the handler**, when there is room for it. -/
theorem Inv.kbPush (h : Inv r ⟨⟨key, k⟩, ctl, g⟩) (hlt : k.count < kbBufferSize) {c : UInt8}
    (hfits : Fits ctl k [c]) : ∃ r', Inv r' ⟨⟨key, Keyboard.kbPush c k⟩, ctl, g.store k.head c⟩ := by
  obtain ⟨hbuf, hind, hunread, hacc, hkept⟩ := h
  dsimp only at hbuf hind hunread hacc hkept
  obtain ⟨hhead, hr⟩ : k.head = r.tail ∧ r.count < kbBufferSize := by
    cases ctl <;> simp only [Indices, Keyboard.Fits, List.length_singleton, List.cons_ne_self] at hind hfits
    all_goals omega
  obtain ⟨hunread', hkept'⟩ := Log.store_push hunread hkept hr c
  refine ⟨r.push c hr, ?_, ?_, ?_, ?_, ?_⟩
  · dsimp only
    rw [kbPush_of_lt c hlt, hbuf, hhead]
    rfl
  · dsimp only
    rw [kbPush_of_lt c hlt]
    cases ctl <;> simp only [Indices, Keyboard.Fits, Ring.head_push, Ring.tail_push, Ring.count_push,
      List.length_singleton, List.cons_ne_self] at hind hfits ⊢
    all_goals simp [hind]
    all_goals omega
  · dsimp only
    rw [hhead]
    exact hunread'
  · change g.accepted ++ [c] = g.returned ++ ctl.inFlight ++ _
    rw [hacc, r.toList_push, List.append_assoc]
  · dsimp only
    rw [hhead]
    exact hkept'

theorem kbPush_of_full (c : UInt8) (h : kbBufferSize ≤ k.count) : Keyboard.kbPush c k = k := if_pos h

/-- Room for characters is room for the first, and room for the others behind it. -/
theorem Fits.cons {c : UInt8} {cs : List UInt8} (h : Fits ctl k (c :: cs)) :
    Fits ctl k [c] ∧ Fits ctl (Keyboard.kbPush c k) cs := by
  by_cases hlt : k.count < kbBufferSize
  · rw [kbPush_of_lt c hlt]
    cases ctl <;> simp only [Fits, List.length_cons, List.length_nil, reduceCtorEq, and_self] at h ⊢
    all_goals omega
  · rw [kbPush_of_full c (Nat.le_of_not_lt hlt)]
    cases ctl <;> simp only [Fits, List.length_cons, List.length_nil, reduceCtorEq, and_self] at h ⊢
    all_goals omega

/-- **The handler**, when its characters fit. -/
theorem Inv.pushes {cs : List UInt8} (h : Inv r ⟨⟨key, k⟩, ctl, g⟩) (hfits : Fits ctl k cs) :
    ∃ r', Inv r' ⟨⟨key, kbPushes cs k⟩, ctl, g.pushes cs k⟩ := by
  induction cs generalizing k g r with
  | nil => exact ⟨r, h⟩
  | cons c cs ih =>
    obtain ⟨hone, hrest⟩ := hfits.cons
    unfold Log.pushes
    by_cases hfull : kbBufferSize ≤ k.count
    · rw [if_pos hfull]
      have h' : Inv r ⟨⟨key, Keyboard.kbPush c k⟩, ctl, g⟩ := by rwa [kbPush_of_full c hfull]
      exact ih h' hrest
    · rw [if_neg hfull]
      obtain ⟨r', h'⟩ := h.kbPush (Nat.lt_of_not_le hfull) hone
      exact ih h' hrest

/-- The modifier keys do not matter. -/
theorem Inv.withKey (h : Inv r ⟨⟨key, k⟩, ctl, g⟩) (key' : KeyState) : Inv r ⟨⟨key', k⟩, ctl, g⟩ := by
  obtain ⟨hbuf, hind, hunread, hacc, hkept⟩ := h
  exact ⟨hbuf, hind, hunread, hacc, hkept⟩

/-- **A step** keeps the invariant, when what the handler pushes fits. -/
theorem Inv.step {a : Act} (h : Inv r s) (hs : Step s a t) (hfits : a.Fits s) : ∃ r', Inv r' t := by
  cases hs with
  | irq s ctl g scs =>
    rw [keyboardPoll_eq]
    obtain ⟨r', h'⟩ := Inv.pushes h hfits
    exact ⟨r', h'.withKey _⟩
  | full => exact ⟨r, h⟩
  | empty => exact ⟨r, h⟩
  | push s g c hlt =>
    obtain ⟨hbuf, ⟨htail, hhead, hcount⟩, hunread, hacc, hkept⟩ := h
    exact ⟨r, hbuf, ⟨htail, hhead, hcount, hcount ▸ hlt⟩, hunread, hacc, hkept⟩
  | store s g c =>
    obtain ⟨hbuf, ⟨htail, hhead, hcount, hr⟩, hunread, hacc, hkept⟩ := h
    dsimp only at hbuf htail hhead hcount hunread hacc hkept
    obtain ⟨hunread', hkept'⟩ := Log.store_push hunread hkept hr c
    rw [← hhead] at hunread' hkept'
    refine ⟨r.push c hr, ?_, ⟨htail, ?_, ?_⟩, hunread', ?_, hkept'⟩
    · change Function.update s.ring.buf s.ring.head c = _
      rw [hbuf, hhead]
      rfl
    · change (s.ring.head + 1) % kbBufferSize = _
      rw [hhead]
      rfl
    · exact congrArg (· + 1) hcount
    · change g.accepted ++ [c] = g.returned ++ [] ++ _
      rw [hacc, r.toList_push]
      simp [Ctl.inFlight]
  | nextHead s g =>
    obtain ⟨hbuf, hind, hunread, hacc, hkept⟩ := h
    exact ⟨r, hbuf, hind, hunread, hacc, hkept⟩
  | incCount s g =>
    obtain ⟨hbuf, ⟨htail, hhead, hcount⟩, hunread, hacc, hkept⟩ := h
    have hle : r.count ≤ 32 := r.count_le
    refine ⟨r, hbuf, ⟨htail, hhead, ?_⟩, hunread, hacc, hkept⟩
    change (s.ring.count + 1) % 2 ^ 8 = r.count
    dsimp only at hcount
    omega
  | getchar s g hne =>
    obtain ⟨hbuf, ⟨htail, hhead, hcount⟩, hunread, hacc, hkept⟩ := h
    dsimp only at hcount
    exact ⟨r, hbuf, ⟨htail, hhead, hcount, by omega⟩, hunread, hacc, hkept⟩
  | read s g =>
    obtain ⟨hbuf, ⟨htail, hhead, hcount, hpos⟩, hunread, hacc, hkept⟩ := h
    dsimp only at hbuf htail hhead hcount hunread hacc hkept
    have hle : r.count ≤ 32 := r.count_le
    refine ⟨r.pop hpos, hbuf, ⟨?_, hhead, ?_, ?_⟩, ?_, ?_, hkept⟩
    · change (s.ring.tail + 1) % kbBufferSize = _
      rw [htail]
      rfl
    · change s.ring.count = r.count - 1 + 1
      omega
    · change r.count - 1 < 32
      omega
    · change g.unread.erase s.ring.tail = _
      rw [hunread, htail, r.slots_pop hpos, List.erase_cons_head]
    · change g.accepted = g.returned ++ [s.ring.buf s.ring.tail] ++ _
      rw [hacc, r.toList_pop hpos, hbuf, htail]
      simp [Ctl.inFlight]
  | nextTail s g c =>
    obtain ⟨hbuf, hind, hunread, hacc, hkept⟩ := h
    exact ⟨r, hbuf, hind, hunread, hacc, hkept⟩
  | decCount s g c =>
    obtain ⟨hbuf, ⟨htail, hhead, hcount, hr⟩, hunread, hacc, hkept⟩ := h
    have hr' : r.count < 32 := hr
    refine ⟨r, hbuf, ⟨htail, hhead, ?_⟩, hunread, hacc, hkept⟩
    change (s.ring.count + 2 ^ 8 - 1) % 2 ^ 8 = r.count
    dsimp only at hcount
    omega
  | ret s g c =>
    obtain ⟨hbuf, hind, hunread, hacc, hkept⟩ := h
    refine ⟨r, hbuf, hind, hunread, ?_, hkept⟩
    change g.accepted = g.returned ++ [c] ++ [] ++ _
    rw [List.append_nil]
    exact hacc

theorem inv_start (s : State) : Inv (Ring.empty s.ring.buf (by decide)) (Cpu.start s) :=
  ⟨rfl, ⟨rfl, rfl, rfl⟩, rfl, rfl, rfl⟩

end Invariant

/-- The step of the system, when what the handler pushes fits. -/
def FitStep (s : Cpu) (a : Act) (t : Cpu) : Prop := Step s a t ∧ a.Fits s

/-- **The ring keeps its characters** in every run in which what the handler pushes fits. -/
theorem kept_of_fits {s : State} {as : List Act} {t : Cpu} (h : Run FitStep (.start s) as t) : Kept t := by
  have hinv : ∃ r, Inv r t := by
    apply h.invariant _ ⟨_, inv_start s⟩
    rintro s a t ⟨r, hr⟩ ⟨hs, hfits⟩
    exact hr.step hs hfits
  obtain ⟨r, hr⟩ := hinv
  exact hr.toKept

/-- A key is hit behind the check of a push, and one behind its store. -/
theorem kept_of_fits_twoKeys : ∃ t, Run FitStep (.start blank)
    [.push 0x61, .irq [0x30], .next, .next, .irq [0x2E], .next, .getchar] t ∧ Kept t := by
  have hrun : Run FitStep (.start blank) [.push 0x61, .irq [0x30], .next, .next, .irq [0x2E], .next, .getchar] _ :=
    Run.cons ⟨Step.push _ _ _ (by decide), trivial⟩ <| Run.cons ⟨Step.irq .., by decide⟩ <|
    Run.cons ⟨Step.store .., trivial⟩ <| Run.cons ⟨Step.nextHead .., trivial⟩ <|
    Run.cons ⟨Step.irq .., by decide⟩ <| Run.cons ⟨Step.incCount .., trivial⟩ <|
    Run.cons ⟨Step.getchar _ _ (by decide), trivial⟩ (Run.nil _)
  exact ⟨_, hrun, kept_of_fits hrun⟩

/-- A key that is hit between the store of a push and the update of `kb_head` overwrites the character. -/
theorem not_kept_store : ∃ t, Run Step (.start blank) [.push 0x61, .next, .irq [0x30], .next, .next] t ∧
    t.ctl = .idle ∧ ¬Kept t := by
  refine ⟨_, Run.cons (Step.push _ _ _ (by decide)) <| Run.cons (Step.store ..) <| Run.cons (Step.irq ..) <|
    Run.cons (Step.nextHead ..) <| Run.cons (Step.incCount ..) (Run.nil _), rfl, ?_⟩
  intro h
  have := h.unread
  revert this
  decide

end AuraOS.Kernel.Keyboard
