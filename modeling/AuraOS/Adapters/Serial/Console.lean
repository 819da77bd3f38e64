import AuraOS.Adapters.Serial.Line
import AuraOS.Kernel.Keyboard.Reference
import AuraOS.Kernel.Vga.Hook
import AuraOS.Kernel.Vga.Terminal

/-!
# The console on the line

The screen, the keyboard ring and the serial port together.  What the screen driver prints while
`serial_mirror_char` is its hook goes out over the line, a newline as carriage return and newline; what comes in
over the line is pushed like the characters that are typed.  `Ran` says what a run of the console has done.
-/

namespace AuraOS.Adapters.Serial

open AuraOS.Lib AuraOS.Kernel AuraOS.Kernel.Vga AuraOS.Kernel.Keyboard

/-! ### The code of the line -/

/-- What `serial_mirror_char` sends. -/
def mirrored (c : UInt8) : List UInt8 := if c = 10 then [13, 10] else [c]

/-- A carriage return in front of a newline is dropped. -/
def unmirrored : List UInt8 → List UInt8
  | [] => []
  | [c] => [c]
  | c :: d :: cs => if c = 13 ∧ d = 10 then d :: unmirrored cs else c :: unmirrored (d :: cs)

theorem unmirrored_cons {c d : UInt8} {cs : List UInt8} (h : ¬(c = 13 ∧ d = 10)) :
    unmirrored (c :: d :: cs) = c :: unmirrored (d :: cs) := by
  rw [unmirrored, if_neg h]

/-- What is sent for a text never starts with a newline. -/
theorem flatMap_mirrored_ne (cs ds : List UInt8) : cs.flatMap mirrored ≠ 10 :: ds := by
  cases cs with
  | nil => simp
  | cons c cs =>
    intro h
    rw [List.flatMap_cons] at h
    unfold mirrored at h
    split at h
    · cases h
    next hc =>
      rw [List.cons_append, List.cons.injEq] at h
      exact hc h.1

/-- **The text can be read off the line.** -/
theorem unmirrored_mirrored (cs : List UInt8) : unmirrored (cs.flatMap mirrored) = cs := by
  induction cs with
  | nil => rfl
  | cons c cs ih =>
    rw [List.flatMap_cons]
    by_cases hc : c = 10
    · subst hc
      change unmirrored (13 :: 10 :: cs.flatMap mirrored) = _
      rw [unmirrored, if_pos ⟨rfl, rfl⟩, ih]
    · have hone : mirrored c = [c] := if_neg hc
      rw [hone]
      rcases hrest : cs.flatMap mirrored with _ | ⟨d, ds⟩
      · rw [hrest] at ih
        rw [← ih]
        rfl
      · have hd : d ≠ 10 := fun h => flatMap_mirrored_ne cs ds (h ▸ hrest)
        rw [List.singleton_append, unmirrored_cons fun h => hd h.2, ← hrest, ih]

/-! ### Sending what is printed -/

section Sending

variable {b fuel : ℕ} {u : Uart}

theorem done_serialMirrorChar (hfuel : b < fuel) (hu : u.Open b) (c : UInt8) :
    Prog.done (Uart.Step b) (serialMirrorChar fuel c) (fun _ u' => u.After b (mirrored c) [] u') u := by
  unfold serialMirrorChar mirrored
  by_cases hc : c = 10
  · subst hc
    refine Prog.done_bind ((done_serialWrite hfuel hu [13]).mono fun _ v hv => ?_)
    exact (done_serialWrite hfuel (hv.isOpen hu) [10]).mono fun _ u' h => hv.trans h
  · simp only [if_neg hc]
    exact done_serialWrite hfuel hu [c]

/-- The port does not see the registers of the cursor. -/
theorem setReg_own {port : UInt16} (h : port = 0x3D4 ∨ port = 0x3D5) (x : UInt8) (m : Uart) : m.setReg port x = m := by
  rcases h with rfl | rfl
  · rfl
  · rfl

theorem done_perform (hfuel : b < fuel) (hu : u.Open b) {es : List Vga.Effect} (hown : ∀ e ∈ es, e.Own) :
    Prog.done (Uart.Step b) (perform fuel es)
      (fun _ u' => u.After b ((es.filterMap Effect.hooked).flatMap mirrored) [] u') u := by
  induction es generalizing u with
  | nil => exact Prog.done_pure (.refl b u)
  | cons e es ih =>
    have hes : ∀ e ∈ es, e.Own := fun e he => hown e (List.mem_cons_of_mem _ he)
    cases e with
    | read i => exact ih hu hes
    | write i v => exact ih hu hes
    | outb port value =>
      have hport : port = 0x3D4 ∨ port = 0x3D5 := hown _ List.mem_cons_self
      have hdata : port ≠ com1Data := by
        rcases hport with rfl | rfl
        · decide
        · decide
      refine Prog.done_bind (Prog.done_lift (wp_setReg hdata fun m hm => ?_))
      rw [setReg_own hport]
      exact (ih (hm.after.isOpen hu) hes).mono fun _ u' h => hm.after.trans h
    | hook c =>
      refine Prog.done_bind ((done_serialMirrorChar hfuel hu c).mono fun _ v hv => ?_)
      refine (ih (hv.isOpen hu) hes).mono fun _ u' h => ?_
      exact hv.trans h

/-- **A function of the screen driver** sends the characters that it passes on. -/
theorem done_onScreen (hfuel : b < fuel) (hu : u.Open b) {f : Screen → Screen} {s : Screen} {cs : List UInt8}
    (hf : ∃ es, (f { s with effects := [] }).effects = [] ++ es ∧ es.filterMap Effect.hooked = cs ∧ ∀ e ∈ es, e.Own) :
    Prog.done (Uart.Step b) (onScreen fuel f s)
      (fun t u' => t = f { s with effects := [] } ∧ u.After b (cs.flatMap mirrored) [] u') u := by
  obtain ⟨es, hes, rfl, hown⟩ := hf
  unfold onScreen
  dsimp only
  rw [hes, List.nil_append]
  exact Prog.done_bind ((done_perform hfuel hu hown).mono fun _ u' h => Prog.done_pure ⟨rfl, h⟩)

end Sending

/-! ### The console -/

/-- The variables of the screen driver and of the keyboard driver. -/
structure Console where
  vga : Screen
  kbd : State

/-- What the kernel does with the console: a call of the screen driver, `serial_poll`, the interrupt of the
keyboard with the scancodes that are pending, and `keyboard_getchar`. -/
inductive Act where
  | screen (c : Vga.Call)
  | poll
  | keys (scs : List UInt8)
  | getchar

/-- What is done, with the character that `keyboard_getchar` returns if the ring is not empty. -/
def Act.run (fuel : ℕ) : Act → Console → SpinProg (List UInt8 × Console)
  | screen c, s => do
    let vga ← onScreen fuel c.apply s.vga
    pure ([], { s with vga := vga })
  | poll, s => do
    let kbd ← liftM (serialPoll s.kbd)
    pure ([], { s with kbd := kbd })
  | keys scs, s => pure ([], { s with kbd := keyboardPoll scs s.kbd })
  | getchar, s =>
    pure (if s.kbd.ring.count = 0 then [] else [(keyboardGetchar s.kbd).1], { s with kbd := (keyboardGetchar s.kbd).2 })

/-- One after the other, with the characters in their order. -/
def runActs (fuel : ℕ) : List Act → Console → SpinProg (List UInt8 × Console)
  | [], s => pure ([], s)
  | a :: as, s => do
    let r ← a.run fuel s
    let r' ← runActs fuel as r.2
    pure (r.1 ++ r'.1, r'.2)

/-! ### What it should do -/

/-- The text that is printed while there is a hook; `on` says whether there is one. -/
def text : Bool → List Act → List UInt8
  | _, [] => []
  | on, .screen c :: as => (if on then c.text else []) ++ text (c.hookAfter on) as
  | on, .poll :: as | on, .keys _ :: as | on, .getchar :: as => text on as

/-- What a byte from the line is pushed as. -/
def newline (x : UInt8) : UInt8 := if x = 13 then 10 else x

/-- A queue for as many characters as the ring has slots: what does not fit is lost. -/
def enqueue (q cs : List UInt8) : List UInt8 := (q ++ cs).take kbBufferSize

/-- The queue of the keyboard, with the modifier keys: the characters that are delivered, and the queue that is
left, when the polls of the line find the bytes `bs`. -/
def delivered : List Act → List (List UInt8) → KeyState → List UInt8 → List UInt8 × List UInt8
  | [], _, _, q => ([], q)
  | .screen _ :: as, bs, key, q => delivered as bs key q
  | .poll :: as, bs, key, q => delivered as bs.tail key (enqueue q (bs.headD [] |>.map newline))
  | .keys scs :: as, bs, key, q => delivered as bs (keysAfter scs key) (enqueue q (typed scs key))
  | .getchar :: as, bs, key, [] => delivered as bs key []
  | .getchar :: as, bs, key, c :: q => ((delivered as bs key q).1.cons c, (delivered as bs key q).2)

/-- The calls of the screen driver. -/
def calls : List Act → List Vga.Call
  | [] => []
  | .screen c :: as => c :: calls as
  | .poll :: as | .keys _ :: as | .getchar :: as => calls as

/-- How often the line is polled. -/
def polls : List Act → ℕ
  | [] => 0
  | .poll :: as => polls as + 1
  | .screen _ :: as | .keys _ :: as | .getchar :: as => polls as

/-- All characters that are pushed. -/
def pushed : List Act → List (List UInt8) → KeyState → List UInt8
  | [], _, _ => []
  | .poll :: as, bs, key => (bs.headD []).map newline ++ pushed as bs.tail key
  | .keys scs :: as, bs, key => typed scs key ++ pushed as bs (keysAfter scs key)
  | .screen _ :: as, bs, key | .getchar :: as, bs, key => pushed as bs key

/-- No push finds the queue too full. -/
def RoomFor : List Act → List (List UInt8) → KeyState → List UInt8 → Prop
  | [], _, _, _ => True
  | .screen _ :: as, bs, key, q => RoomFor as bs key q
  | .poll :: as, bs, key, q =>
    q.length + (bs.headD []).length ≤ kbBufferSize ∧ RoomFor as bs.tail key (q ++ (bs.headD []).map newline)
  | .keys scs :: as, bs, key, q =>
    q.length + (typed scs key).length ≤ kbBufferSize ∧ RoomFor as bs (keysAfter scs key) (q ++ typed scs key)
  | .getchar :: as, bs, key, q => RoomFor as bs key q.tail

section Queue

variable {bs : List (List UInt8)} {key : KeyState} {q : List UInt8}

theorem enqueue_sublist (q cs : List UInt8) : (enqueue q cs).Sublist (q ++ cs) := List.take_sublist _ _

theorem enqueue_eq {cs : List UInt8} (h : q.length + cs.length ≤ kbBufferSize) : enqueue q cs = q ++ cs :=
  List.take_of_length_le (by rwa [List.length_append])

/-- **No character is delivered twice or out of order.** -/
theorem delivered_sublist (as : List Act) (bs : List (List UInt8)) (key : KeyState) (q : List UInt8) :
    ((delivered as bs key q).1 ++ (delivered as bs key q).2).Sublist (q ++ pushed as bs key) := by
  induction as generalizing bs key q with
  | nil => simp [delivered, pushed]
  | cons a as ih =>
    cases a with
    | screen c => exact ih bs key q
    | poll =>
      refine (ih bs.tail key _).trans ?_
      rw [pushed, ← List.append_assoc]
      exact (enqueue_sublist _ _).append_right _
    | keys scs =>
      refine (ih bs (keysAfter scs key) _).trans ?_
      rw [pushed, ← List.append_assoc]
      exact (enqueue_sublist _ _).append_right _
    | getchar =>
      cases q with
      | nil => exact ih bs key []
      | cons c q => exact (ih bs key q).cons_cons c

/-- **None is lost** while there is room. -/
theorem delivered_eq (as : List Act) {bs : List (List UInt8)} {key : KeyState} {q : List UInt8}
    (h : RoomFor as bs key q) :
    (delivered as bs key q).1 ++ (delivered as bs key q).2 = q ++ pushed as bs key := by
  induction as generalizing bs key q with
  | nil => simp [delivered, pushed]
  | cons a as ih =>
    cases a with
    | screen c => exact ih h
    | poll =>
      obtain ⟨hroom, h⟩ := h
      rw [delivered, pushed, enqueue_eq (by rwa [List.length_map]), ← List.append_assoc]
      exact ih h
    | keys scs =>
      obtain ⟨hroom, h⟩ := h
      rw [delivered, pushed, enqueue_eq hroom, ← List.append_assoc]
      exact ih h
    | getchar =>
      cases q with
      | nil => exact ih h
      | cons c q => exact congrArg (c :: ·) (ih (q := q) h)

end Queue

/-! ### What it does -/

section Ring

variable {k : KbRing} {r : Ring UInt8 kbBufferSize} {s : State}

/-- **Pushing** appends as many characters as there is room for. -/
theorem isRing_kbPushes (h : IsRing k r) (cs : List UInt8) :
    ∃ r', IsRing (kbPushes cs k) r' ∧ r'.toList = enqueue r.toList cs := by
  have hlen : r.toList.length = r.count := r.length_toList
  unfold enqueue
  induction cs generalizing k r with
  | nil => exact ⟨r, h, by rw [List.append_nil, List.take_of_length_le (hlen ▸ r.count_le)]⟩
  | cons c cs ih =>
    by_cases hc : r.count < kbBufferSize
    · obtain ⟨r', hr', hlist⟩ := ih (h.kbPush hc c) (r.push c hc).length_toList
      refine ⟨r', hr', ?_⟩
      rw [hlist, Ring.toList_push, List.append_assoc]
      rfl
    · have hfull : r.toList.length = kbBufferSize := hlen.trans (Nat.le_antisymm r.count_le (Nat.le_of_not_lt hc))
      have hkeep : kbPush c k = k := kbPush_of_full c (h.count ▸ Nat.le_of_not_lt hc)
      obtain ⟨r', hr', hlist⟩ := ih h hlen
      refine ⟨r', ?_, ?_⟩
      · change IsRing (kbPushes cs (kbPush c k)) r'
        rwa [hkeep]
      · rw [hlist, List.take_append_of_le_length hfull.ge, List.take_append_of_le_length hfull.ge]

theorem foldl_pushReceived (buf : List UInt8) (s : State) :
    buf.foldl pushReceived s = ⟨s.key, kbPushes (buf.map newline) s.ring⟩ := by
  induction buf generalizing s with
  | nil => rfl
  | cons x buf ih =>
    rw [List.foldl_cons, ih]
    rfl

end Ring

/-- What a run has done: the port and the bytes that each poll has found, the characters delivered and the ring
that is left, and the screen. -/
structure Ran (b : ℕ) (as : List Act) (s : Console) (u : Uart) (r : Ring UInt8 kbBufferSize) (bs : List (List UInt8))
    (res : List UInt8 × Console) (u' : Uart) (r' : Ring UInt8 kbBufferSize) : Prop where
  after : u.After b ((text s.vga.gSerialHook as).flatMap mirrored) bs.flatten u'
  polls : bs.length = polls as
  short : ∀ l ∈ bs, l.length ≤ 16
  ring : IsRing res.2.kbd.ring r'
  delivered : delivered as bs s.kbd.key r.toList = (res.1, r'.toList)
  screen : ∀ t, Shows t s.vga → (∀ row col, Call.setCursor row col ∉ calls as) →
    Shows (t.run (calls as)) res.2.vga

section Ran

variable {b fuel : ℕ} {u v u' : Uart} {as : List Act} {s : Console} {r r' r₁ : Ring UInt8 kbBufferSize}
  {bs : List (List UInt8)} {res : List UInt8 × Console}

theorem Ran.nil (s : Console) (u : Uart) (hr : IsRing s.kbd.ring r) : Ran b [] s u r [] ([], s) u r :=
  ⟨.refl b u, rfl, by simp, hr, rfl, fun _ ht _ => ht⟩

/-- A call of the screen driver, then the rest. -/
theorem Ran.cons_screen {c : Vga.Call} {vga : Screen} (hvga : vga = c.apply { s.vga with effects := [] })
    (hv : u.After b ((if s.vga.gSerialHook then c.text else []).flatMap mirrored) [] v)
    (h : Ran b as { s with vga := vga } v r bs res u' r') : Ran b (.screen c :: as) s u r bs res u' r' := by
  have hhook : vga.gSerialHook = c.hookAfter s.vga.gSerialHook := by
    rw [hvga]
    exact (passes_apply c { s.vga with effects := [] }).1
  refine ⟨?_, h.polls, h.short, h.ring, h.delivered, fun t ht hc => ?_⟩
  · have hafter := hv.trans h.after
    dsimp only at hafter
    rwa [hhook, List.nil_append, ← List.flatMap_append] at hafter
  · have hne : ∀ row col, c ≠ .setCursor row col := fun row col e => hc row col (e ▸ List.mem_cons_self)
    have hclean : Faithful t { s.vga with effects := [] } :=
      ⟨⟨ht.height, ht.row, ht.row_lt, ht.col, ht.col_lt, ht.color, ht.cells⟩, by simp⟩
    refine h.screen (t.call c) ?_ fun row col hmem => hc row col (List.mem_cons_of_mem _ hmem)
    dsimp only
    rw [hvga]
    exact (hclean.call hne).1

/-- A poll of the line that has found the bytes `buf`, then the rest. -/
theorem Ran.cons_poll {buf : List UInt8} (hr₁ : r₁.toList = enqueue r.toList (buf.map newline))
    (hv : u.After b [] buf v) (hbuf : buf.length ≤ 16)
    (h : Ran b as { s with kbd := buf.foldl pushReceived s.kbd } v r₁ bs res u' r') :
    Ran b (.poll :: as) s u r (buf :: bs) res u' r' := by
  refine ⟨hv.trans h.after, congrArg (· + 1) h.polls, ?_, h.ring, ?_, h.screen⟩
  · intro l hl
    rcases List.mem_cons.1 hl with rfl | hl
    · exact hbuf
    · exact h.short l hl
  · have hrest := h.delivered
    rw [foldl_pushReceived, hr₁] at hrest
    exact hrest

/-- The interrupt of the keyboard, then the rest. -/
theorem Ran.cons_keys {scs : List UInt8} (hr₁ : r₁.toList = enqueue r.toList (typed scs s.kbd.key))
    (h : Ran b as { s with kbd := keyboardPoll scs s.kbd } u r₁ bs res u' r') :
    Ran b (.keys scs :: as) s u r bs res u' r' := by
  refine ⟨h.after, h.polls, h.short, h.ring, ?_, h.screen⟩
  have hrest := h.delivered
  rw [keyboardPoll_eq, hr₁] at hrest
  exact hrest

/-- A character is taken, then the rest. -/
theorem Ran.cons_getchar (hr : IsRing s.kbd.ring r)
    (hr₁ : if s.kbd.ring.count = 0 then r₁ = r else r.toList = (keyboardGetchar s.kbd).1 :: r₁.toList)
    (h : Ran b as { s with kbd := (keyboardGetchar s.kbd).2 } u r₁ bs res u' r') :
    Ran b (.getchar :: as) s u r bs
      ((if s.kbd.ring.count = 0 then [] else [(keyboardGetchar s.kbd).1]) ++ res.1, res.2) u' r' := by
  have hkey : (keyboardGetchar s.kbd).2.key = s.kbd.key := Call.run_key .getchar s.kbd
  have hrest := h.delivered
  dsimp only at hrest
  rw [hkey] at hrest
  refine ⟨h.after, h.polls, h.short, h.ring, ?_, h.screen⟩
  by_cases h0 : s.kbd.ring.count = 0
  · rw [if_pos h0] at hr₁ ⊢
    have hnil : r.toList = [] := List.eq_nil_of_length_eq_zero (by rw [r.length_toList, ← hr.count, h0])
    rw [hr₁, hnil] at hrest
    rw [hnil]
    exact hrest
  · rw [if_neg h0] at hr₁ ⊢
    rw [hr₁]
    unfold Serial.delivered
    rw [hrest]
    rfl

/-- **A run of the console** sends what is printed, and delivers what comes in and what is typed as a queue. -/
theorem done_runActs (hfuel : b < fuel) (hu : u.Open b) (hr : IsRing s.kbd.ring r) (as : List Act) :
    Prog.done (Uart.Step b) (runActs fuel as s) (fun res u' => ∃ bs r', Ran b as s u r bs res u' r') u := by
  induction as generalizing s u r with
  | nil => exact Prog.done_pure ⟨[], r, .nil s u hr⟩
  | cons a as ih =>
    refine Prog.done_bind ?_
    cases a with
    | screen c =>
      refine Prog.done_bind ((done_onScreen hfuel hu (passes_apply c _).2).mono fun vga v hv => Prog.done_pure ?_)
      refine Prog.done_bind ((ih (s := { s with vga := vga }) (hv.2.isOpen hu) hr).mono fun res u' h => ?_)
      obtain ⟨bs, r', h⟩ := h
      exact Prog.done_pure ⟨bs, r', h.cons_screen hv.1 hv.2⟩
    | poll =>
      refine Prog.done_bind (Prog.done_lift (Prog.wp_bind.2 ((wp_serialRead hu 16).mono fun buf v hv => ?_)))
      refine Prog.wp_pure.2 (Prog.done_pure ?_)
      obtain ⟨r₁, hr₁, hlist⟩ := isRing_kbPushes hr (buf.map newline)
      have hring : IsRing (buf.foldl pushReceived s.kbd).ring r₁ := by rwa [foldl_pushReceived]
      refine Prog.done_bind ((ih (hv.1.isOpen hu) hring).mono fun res u' h => ?_)
      obtain ⟨bs, r', h⟩ := h
      exact Prog.done_pure ⟨buf :: bs, r', h.cons_poll hlist hv.1 hv.2.1⟩
    | keys scs =>
      refine Prog.done_pure ?_
      obtain ⟨r₁, hr₁, hlist⟩ := isRing_kbPushes hr (typed scs s.kbd.key)
      have hring : IsRing (keyboardPoll scs s.kbd).ring r₁ := by rwa [keyboardPoll_eq]
      refine Prog.done_bind ((ih hu hring).mono fun res u' h => ?_)
      obtain ⟨bs, r', h⟩ := h
      exact Prog.done_pure ⟨bs, r', h.cons_keys hlist⟩
    | getchar =>
      refine Prog.done_pure ?_
      have hnext : ∃ r₁, IsRing (keyboardGetchar s.kbd).2.ring r₁ ∧
          if s.kbd.ring.count = 0 then r₁ = r else r.toList = (keyboardGetchar s.kbd).1 :: r₁.toList := by
        by_cases h0 : s.kbd.ring.count = 0
        · refine ⟨r, ?_, by rw [if_pos h0]⟩
          unfold keyboardGetchar
          rwa [if_pos h0]
        · obtain ⟨r₁, hr₁, hlist⟩ := isRing_keyboardGetchar hr h0
          exact ⟨r₁, hr₁, by rwa [if_neg h0]⟩
      obtain ⟨r₁, hring, hr₁⟩ := hnext
      refine Prog.done_bind ((ih hu hring).mono fun res u' h => ?_)
      obtain ⟨bs, r', h⟩ := h
      exact Prog.done_pure ⟨bs, r', h.cons_getchar hr hr₁⟩

end Ran

end AuraOS.Adapters.Serial
