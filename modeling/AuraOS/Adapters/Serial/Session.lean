import AuraOS.Adapters.Serial.Console

/-!
# Sessions over the line

A session starts with `serial_plugin_init`, on a port in any state.  The text that is printed can be read off the
line (`session_sends`), a terminal at its other end shows what the screen shows (`session_screens`), and what is
typed there is delivered in order (`session_receives`).
-/

namespace AuraOS.Adapters.Serial

open AuraOS.Lib AuraOS.Kernel AuraOS.Kernel.Vga AuraOS.Kernel.Keyboard

/-- `serial_plugin_init`, and what the kernel does with its console from then on. -/
def session (fuel : ℕ) (as : List Act) (s : Console) : SpinProg (List UInt8 × Console) := do
  let r ← serialPluginInit fuel s.vga
  runActs fuel as { s with vga := r.2 }

/-- What the start of a session prints. -/
def greeting : List UInt8 := initMessage ++ [10]

/-- The banner is sent as it would be mirrored. -/
theorem banner_eq : banner = (banner.take 31 ++ [10]).flatMap mirrored := by decide

/-- What follows the banner can be read off the line. -/
theorem unmirrored_banner (cs : List UInt8) :
    unmirrored (banner ++ cs.flatMap mirrored) = banner.take 31 ++ [10] ++ cs := by
  have h := unmirrored_mirrored (banner.take 31 ++ [10] ++ cs)
  rwa [List.flatMap_append, ← banner_eq] at h

/-! ### A terminal on the line -/

/-- A terminal at the other end of the line: a newline keeps the column. -/
def onLine (t : Terminal) (c : UInt8) : Terminal := if c = 10 then { t.lineFeed with col := t.col } else t.put c

/-- **What is sent for a text** does to it what the text does to the terminal of the screen. -/
theorem foldl_onLine (cs : List UInt8) (t : Terminal) :
    (cs.flatMap mirrored).foldl onLine t = cs.foldl Terminal.put t := by
  induction cs generalizing t with
  | nil => rfl
  | cons c cs ih =>
    have hone : (mirrored c).foldl onLine t = t.put c := by
      unfold mirrored
      by_cases hc : c = 10
      · subst hc
        rfl
      · rw [if_neg hc]
        exact if_neg hc
    rw [List.flatMap_cons, List.foldl_append, hone, ih]
    rfl

/-- The calls print, and no more. -/
def Prints (cs : List Vga.Call) : Prop := ∀ c ∈ cs, (∃ x, c = .putchar x) ∨ ∃ str, c = .print str

/-- What such calls print. -/
theorem run_of_prints {as : List Act} (h : Prints (calls as)) (t : Terminal) :
    t.run (calls as) = (text true as).foldl Terminal.put t := by
  induction as generalizing t with
  | nil => rfl
  | cons a as ih =>
    cases a with
    | screen c =>
      have hrest : Prints (calls as) := fun d hd => h d (List.mem_cons_of_mem _ hd)
      change (t.call c).run (calls as) = _
      rw [ih hrest, text, if_pos rfl, List.foldl_append]
      obtain ⟨x, rfl⟩ | ⟨str, rfl⟩ := h c List.mem_cons_self
      · rfl
      · rfl
    | poll => exact ih h t
    | keys scs => exact ih h t
    | getchar => exact ih h t

/-! ### The main results -/

/-- A port that is still sending a byte, with two bytes received. -/
def busyPort (g : Regs) : Uart := ⟨g, [], [33], 2, [104, 13], [104, 13]⟩

/-- The registers after a reset. -/
def resetRegs : Regs := ⟨0, 0, 0, 0, 0, 0⟩

section Main

variable {b fuel : ℕ} {u : Uart} {s : Console} {r : Ring UInt8 kbBufferSize} {as : List Act}

/-- The port after `serial_plugin_init`, and the screen. -/
structure Started (b : ℕ) (s : Screen) (u : Uart) (r : AuraStatus × Screen) (u' : Uart) : Prop where
  status : r.1 = .ok
  isOpen : u'.Open b
  regs : u'.regs = opened u.regs
  screen : r.2 = vgaPrintln (some initMessage) (vgaSetSerialHook true { s with effects := [] })
  sent : ∃ cut, u.line <+: cut ∧ cut <+: u.sent ∧ u'.sent = cut ++ banner ++ greeting.flatMap mirrored
  came : ∃ cs, u.came <+: cs ∧ u'.came = cs ++ u'.fifo

/-- **The start of a session** works on a port in any state. -/
theorem done_serialPluginInit (hfuel : b < fuel) (s : Screen) (u : Uart) :
    Prog.done (Uart.Step b) (serialPluginInit fuel s) (Started b s u) u := by
  unfold serialPluginInit
  refine Prog.done_bind (Prog.done_lift ((wp_serialOpen u).mono fun r v hv => ?_))
  obtain ⟨rfl, hregs, hopen, hheld, hline, hcut, cs, hcs, hcame⟩ := hv
  rw [if_pos rfl]
  refine Prog.done_bind ((done_serialWrite hfuel hopen banner).mono fun _ w hw => ?_)
  have htext : CStr.text initMessage ++ [10] = greeting := by decide
  generalize hf : (fun s => vgaPrintln (some initMessage) (vgaSetSerialHook true s)) = f
  have hpass : ∃ es, (f { s with effects := [] }).effects = [] ++ es ∧ es.filterMap Effect.hooked = greeting ∧
      ∀ e ∈ es, e.Own := by
    have h := passes_vgaPrintln (some initMessage) (s := vgaSetSerialHook true { s with effects := [] }) rfl
    rw [Option.getD_some, htext] at h
    rw [← hf]
    exact h.2
  refine Prog.done_bind ((done_onScreen hfuel (hw.isOpen hopen) hpass).mono fun vga x hx => ?_)
  rw [← hf] at hx
  have hafter := hw.trans hx.2
  refine Prog.done_pure ⟨rfl, hafter.isOpen hopen, hafter.regs.trans hregs, hx.1, ⟨v.line, hline, hcut, ?_⟩, cs, hcs,
    ?_⟩
  · have hsent : v.sent = v.line := by
      unfold Uart.sent
      rw [hheld, List.append_nil]
    rw [hafter.sent, hsent, List.append_assoc]
  · obtain ⟨ds, hds, hfifo⟩ := hafter.came
    rw [hds, hcame, List.append_assoc, hfifo]
    rfl

/-- **A session** runs to its end. -/
theorem done_session (hfuel : b < fuel) (hr : IsRing s.kbd.ring r) (as : List Act) (u : Uart) :
    Prog.done (Uart.Step b) (session fuel as s) (fun res u' => ∃ v vga bs r', Started b s.vga u (.ok, vga) v ∧
      Ran b as { s with vga := vga } v r bs res u' r') u := by
  refine Prog.done_bind ((done_serialPluginInit hfuel s.vga u).mono fun x v hv => ?_)
  refine (done_runActs (s := { s with vga := x.2 }) hfuel hv.isOpen hr as).mono fun res u' h => ?_
  obtain ⟨bs, r', h⟩ := h
  obtain ⟨status, vga⟩ := x
  obtain rfl : status = .ok := hv.status
  exact ⟨v, vga, bs, r', hv, h⟩

/-- **What is sent**, from the start of the session on and in any case: behind a part of what was given to the
transmitter before, the banner, and the greeting and all that is printed with a carriage return before each newline.
So the text can be read off the line. -/
theorem session_sends (hfuel : b < fuel) (hr : IsRing s.kbd.ring r) (as : List Act) (u : Uart) :
    Prog.done (Uart.Step b) (session fuel as s) (fun _ u' => ∃ cut out, cut <+: u.sent ∧ u'.sent = cut ++ out ∧
      out = banner ++ (greeting ++ text true as).flatMap mirrored ∧
      unmirrored out = banner.take 31 ++ [10] ++ greeting ++ text true as) u := by
  refine (done_session hfuel hr as u).mono fun res u' h => ?_
  obtain ⟨v, vga, bs, r', hv, h⟩ := h
  obtain ⟨cut, -, hcut, hsent⟩ := hv.sent
  have hhook : vga.gSerialHook = true := by
    rw [show vga = _ from hv.screen]
    exact (passes_vgaPrintln (some initMessage) rfl).1
  have hsent' := h.after.sent
  dsimp only at hsent'
  rw [hhook, hsent] at hsent'
  refine ⟨cut, banner ++ (greeting ++ text true as).flatMap mirrored, hcut, ?_, rfl, ?_⟩
  · rw [hsent', List.flatMap_append, List.append_assoc, List.append_assoc]
  · rw [unmirrored_banner, ← List.append_assoc]

end Main

/-- A letter and a newline, on a port that is busy when the session starts. -/
theorem session_sends_letter : ∃ res u' cut out, Prog.Exec (Uart.Step 2) (busyPort resetRegs)
    (session 3 [.screen (.putchar 65), .screen (.putchar 10)] ⟨zeroVga, blank⟩).run (some res) u' ∧
      cut <+: [33] ∧ u'.sent = cut ++ out ∧ out = banner ++ greeting.flatMap mirrored ++ [65, 13, 10] := by
  have hfuel : 2 < 3 := by decide
  obtain ⟨res, u', hexec, cut, out, hcut, hsent, hout, -⟩ := (session_sends (s := ⟨zeroVga, blank⟩) hfuel
    (isRing_init blank) [.screen (.putchar 65), .screen (.putchar 10)] (busyPort resetRegs)).exists_exec
  refine ⟨res, u', cut, out, hexec, hcut, hsent, ?_⟩
  rw [hout, List.flatMap_append, List.append_assoc]
  rfl

section Main

variable {b fuel : ℕ} {u : Uart} {s : Console} {r : Ring UInt8 kbBufferSize} {as : List Act}

/-- **Both terminals agree**: a terminal at the other end of the line that shows what the screen shows when it is
connected does so again after any printing, whatever is typed in between. -/
theorem session_screens (hfuel : b < fuel) (hu : u.Open b) (hr : IsRing s.kbd.ring r)
    (hhook : s.vga.gSerialHook = true) {t : Terminal} (ht : Shows t s.vga) (has : Prints (calls as)) :
    Prog.done (Uart.Step b) (runActs fuel as s) (fun res u' => ∃ out, u'.sent = u.sent ++ out ∧
      Shows (out.foldl onLine t) res.2.vga) u := by
  refine (done_runActs hfuel hu hr as).mono fun res u' h => ?_
  obtain ⟨bs, r', h⟩ := h
  refine ⟨_, h.after.sent, ?_⟩
  rw [hhook, foldl_onLine, ← run_of_prints has]
  refine h.screen t ht fun row col hmem => ?_
  obtain ⟨x, hx⟩ | ⟨str, hstr⟩ := has _ hmem
  · cases hx
  · cases hstr

end Main

/-- A letter on a fresh screen, and a poll. -/
theorem session_screens_letter : ∃ res u' out, Prog.Exec (Uart.Step 2) (busyPort (opened resetRegs))
    (runActs 3 [.screen (.putchar 65), .poll] ⟨vgaInit { zeroVga with gSerialHook := true }, blank⟩).run (some res) u' ∧
      u'.sent = [33] ++ out ∧ Shows (out.foldl onLine .start) res.2.vga := by
  have hshows : Shows .start (vgaInit { zeroVga with gSerialHook := true }) :=
    (faithful_start { zeroVga with gSerialHook := true }).1
  have hhook : (vgaInit { zeroVga with gSerialHook := true }).gSerialHook = true := by
    unfold vgaInit
    rw [(passes_vgaClear _).1]
  generalize vgaInit { zeroVga with gSerialHook := true } = vga at hshows hhook ⊢
  have hfuel : 2 < 3 := by decide
  have hprints : Prints (calls [.screen (.putchar 65), .poll]) := fun c hc => Or.inl ⟨65, List.mem_singleton.1 hc⟩
  obtain ⟨res, u', hexec, out, h⟩ := (session_screens (u := busyPort (opened resetRegs)) (s := ⟨vga, blank⟩) hfuel
    ⟨by decide, by decide⟩ (isRing_init blank) hhook hshows hprints).exists_exec
  exact ⟨res, u', out, hexec, h⟩

section Main

variable {b fuel : ℕ} {u : Uart} {s : Console} {r : Ring UInt8 kbBufferSize} {as : List Act}

/-- What the ring delivers of the characters in it, of those that the polls `bs` push and of those that are typed:
the same as a queue of 32 characters.  So none is delivered twice or out of order, and while there is room, none is
lost. -/
structure Delivers (as : List Act) (bs : List (List UInt8)) (s : Console) (res : List UInt8 × Console) : Prop where
  queue : delivered as bs s.kbd.key s.kbd.ring.contents = (res.1, res.2.kbd.ring.contents)
  inOrder : (res.1 ++ res.2.kbd.ring.contents).Sublist (s.kbd.ring.contents ++ pushed as bs s.kbd.key)
  complete : RoomFor as bs s.kbd.key s.kbd.ring.contents →
    res.1 ++ res.2.kbd.ring.contents = s.kbd.ring.contents ++ pushed as bs s.kbd.key

theorem Ran.delivers {res : List UInt8 × Console} {bs : List (List UInt8)} {r' : Ring UInt8 kbBufferSize} {u' : Uart}
    (hr : IsRing s.kbd.ring r) (h : Ran b as s u r bs res u' r') : Delivers as bs s res := by
  have hdel := h.delivered
  rw [← hr.contents, ← h.ring.contents] at hdel
  have hsub := delivered_sublist as bs s.kbd.key s.kbd.ring.contents
  have heq : RoomFor as bs s.kbd.key s.kbd.ring.contents → _ := delivered_eq as
  rw [hdel] at hsub heq
  exact ⟨hdel, hsub, heq⟩

/-- **A poll** takes the bytes that wait in the port, up to 16, and perhaps some that come in meanwhile, and pushes
them. -/
structure Polled (s : State) (u : Uart) (buf : List UInt8) (s' : State) (u' : Uart) : Prop where
  came : ∃ cs, u'.came = u.came ++ cs ∧ u.fifo ++ cs = buf ++ u'.fifo
  takes : min 16 u.fifo.length ≤ buf.length
  short : buf.length ≤ 16
  key : s'.key = s.key
  ring : s'.ring.contents = enqueue s.ring.contents (buf.map newline)

theorem wp_serialPoll {k : State} (hu : u.Open b) (hr : IsRing k.ring r) :
    (serialPoll k).wp (Uart.Step b) (fun k' u' => ∃ buf, Polled k u buf k' u') u := by
  unfold serialPoll
  refine Prog.wp_bind.2 ((wp_serialRead hu 16).mono fun buf v hv => Prog.wp_pure.2 ⟨buf, ?_⟩)
  obtain ⟨hafter, hle, hmin⟩ := hv
  obtain ⟨r₁, hr₁, hlist⟩ := isRing_kbPushes hr (buf.map newline)
  rw [foldl_pushReceived]
  refine ⟨hafter.came, hmin, hle, rfl, ?_⟩
  rw [hr₁.contents, hlist, hr.contents]

/-- **What comes in is delivered as a queue**, whatever is printed in between: every byte that the port receives once
the session has cleared its FIFO is found by a poll, in order, or waits in the port; a further poll takes those that
wait, up to 16; and the ring delivers the characters of the polls and those that are typed. -/
theorem session_receives (hfuel : b < fuel) (hr : IsRing s.kbd.ring r) (as : List Act) (u : Uart) :
    Prog.done (Uart.Step b) (session fuel as s) (fun res u' => ∃ old bs, u.came <+: old ∧
      u'.came = old ++ bs.flatten ++ u'.fifo ∧ bs.length = polls as ∧ (∀ l ∈ bs, l.length ≤ 16) ∧
      Delivers as bs s res ∧
      (serialPoll res.2.kbd).wp (Uart.Step b) (fun k u'' => ∃ buf, Polled res.2.kbd u' buf k u'') u') u := by
  refine (done_session hfuel hr as u).mono fun res u' h => ?_
  obtain ⟨v, vga, bs, r', hv, h⟩ := h
  obtain ⟨old, hold, hcame⟩ := hv.came
  obtain ⟨cs, hcame', hfifo⟩ := h.after.came
  refine ⟨old, bs, hold, ?_, h.polls, h.short, ?_, wp_serialPoll (h.after.isOpen hv.isOpen) h.ring⟩
  · rw [hcame', hcame, List.append_assoc, hfifo, List.append_assoc]
  · have hdel := Ran.delivers (s := { s with vga := vga }) hr h
    exact ⟨hdel.queue, hdel.inOrder, hdel.complete⟩

end Main

/-- A poll, and two characters are taken; what the port held before the session is lost. -/
theorem session_receives_line : ∃ res u' old bs, Prog.Exec (Uart.Step 2) (busyPort resetRegs)
    (session 3 [.poll, .getchar, .getchar] ⟨zeroVga, blank⟩).run (some res) u' ∧ [104, 13] <+: old ∧
      u'.came = old ++ bs.flatten ++ u'.fifo ∧ bs.length = 1 ∧
      delivered [.poll, .getchar, .getchar] bs blank.key [] = (res.1, res.2.kbd.ring.contents) := by
  have hfuel : 2 < 3 := by decide
  obtain ⟨res, u', hexec, old, bs, hold, hcame, hlen, -, hdel, -⟩ := (session_receives (s := ⟨zeroVga, blank⟩) hfuel
    (isRing_init blank) [.poll, .getchar, .getchar] (busyPort resetRegs)).exists_exec
  exact ⟨res, u', old, bs, hexec, hold, hcame, hlen, hdel.queue⟩

end AuraOS.Adapters.Serial
