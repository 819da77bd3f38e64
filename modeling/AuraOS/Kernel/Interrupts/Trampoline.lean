import AuraOS.Lib.Stack

/-!
# The interrupt stubs

The assembly of `kernel/idt.c` on the part of a 386 that it uses: the stubs of the exceptions and of the
interrupts, and the two common parts around the calls of the dispatchers.  What a dispatcher does is a function on
the states, which may change all registers and the memory, but returns and leaves the words alone that its caller
has pushed (`Cdecl`).

An interrupt restores what it has interrupted exactly if the processor pushes an error code where the stub expects
one (`interrupt_restores_iff`).
-/

namespace AuraOS.Kernel.Interrupts

open AuraOS.Lib

/-! ### The processor -/

/-- The registers and the memory. -/
structure Cpu where
  eax : UInt32
  ecx : UInt32
  edx : UInt32
  ebx : UInt32
  esp : UInt32
  ebp : UInt32
  esi : UInt32
  edi : UInt32
  eip : UInt32
  cs : UInt16
  eflags : UInt32
  mem : Mem

/-- The C functions that the stubs call. -/
inductive Dispatcher where
  | isrDispatch | irqDispatch
  deriving DecidableEq

/-- The instructions of the stubs; a jump to the common part is the common part itself. -/
inductive Instr where
  | pushl (imm : UInt32)
  | pusha
  | leaEspEax (disp : UInt32)
  | pushEax
  | call (f : Dispatcher)
  | addEsp (imm : UInt32)
  | popa
  | iret

namespace Cpu

variable (s : Cpu)

def push (w : UInt32) : Cpu := { s with esp := s.esp - 4, mem := s.mem.store32 (s.esp - 4).toNat w.toNat }

/-- Word `i` of the stack. -/
def word (i : ℕ) : UInt32 := UInt32.ofNat (s.mem.load32 (s.esp.toNat + 4 * i))

def pusha : Cpu :=
  ((((((((s.push s.eax).push s.ecx).push s.edx).push s.ebx).push s.esp).push s.ebp).push s.esi).push s.edi)

def popa : Cpu :=
  { s with
    edi := s.word 0
    esi := s.word 1
    ebp := s.word 2
    ebx := s.word 4
    edx := s.word 5
    ecx := s.word 6
    eax := s.word 7
    esp := s.esp + 32 }

def iret : Cpu := { s with eip := s.word 0, cs := (s.word 1).toUInt16, eflags := s.word 2, esp := s.esp + 12 }

/-- The flags `TF`, `IF`, `NT`, `RF` and `VM`, which an interrupt gate clears. -/
abbrev gateFlags : UInt32 := 0x34300

/-- The processor passes an interrupt gate, with the error code of the exception if there is one. -/
def enter (err : Option UInt32) : Cpu :=
  let t := { ((s.push s.eflags).push s.cs.toUInt32).push s.eip with eflags := s.eflags &&& ~~~gateFlags }
  match err with
  | none => t
  | some e => t.push e

end Cpu

/-- One instruction; a call leaves the return address `ret`. -/
def Instr.exec (callee : Dispatcher → Cpu → Cpu) (ret : UInt32) : Instr → Cpu → Cpu
  | pushl imm, s => s.push imm
  | pusha, s => s.pusha
  | leaEspEax disp, s => { s with eax := s.esp + disp }
  | pushEax, s => s.push s.eax
  | call f, s => callee f (s.push ret)
  | addEsp imm, s => { s with esp := s.esp + imm }
  | popa, s => s.popa
  | iret, s => s.iret

/-- One after the other. -/
def exec (callee : Dispatcher → Cpu → Cpu) (ret : UInt32) (code : List Instr) (s : Cpu) : Cpu :=
  code.foldl (fun s i => i.exec callee ret s) s

/-! ### The stubs -/

/-- `ISR_NOERR`. -/
def isrNoerr (n : UInt32) : List Instr := [.pushl 0, .pushl n]

/-- `ISR_HWERR`. -/
def isrHwerr (n : UInt32) : List Instr := [.pushl n]

/-- `IRQ_STUB`. -/
def irqStub (vec : UInt32) : List Instr := [.pushl 0, .pushl vec]

/-- The vectors with `ISR_HWERR`. -/
def hwerr : List UInt32 := [8, 10, 11, 12, 13, 14, 17, 30]

/-- `isr0`, …, `isr31`. -/
def isr (n : UInt32) : List Instr := if n ∈ hwerr then isrHwerr n else isrNoerr n

/-- `isr_common` and `irq_common` differ in the function that they call. -/
def common (f : Dispatcher) : List Instr :=
  [.pusha, .leaEspEax 32, .pushEax, .call f, .addEsp 4, .popa, .addEsp 8, .iret]

/-- `isr_common`. -/
def isrCommon : List Instr := common .isrDispatch

/-- `irq_common`. -/
def irqCommon : List Instr := common .irqDispatch

/-- The code that the vector `v` of the 48 vectors with a gate leads to. -/
def handlerCode (v : UInt32) : List Instr := if v < 32 then isr v ++ isrCommon else irqStub v ++ irqCommon

/-- The function that it calls. -/
def dispatcher (v : UInt32) : Dispatcher := if v < 32 then .isrDispatch else .irqDispatch

/-- `struct isr_frame`; the first two fields are those of `struct irq_frame`. -/
structure IsrFrame where
  vector : UInt32
  errorCode : UInt32
  eip : UInt32
  cs : UInt32
  eflags : UInt32

/-- What a dispatcher finds behind its argument. -/
def frame (s : Cpu) : IsrFrame :=
  let f := s.mem.load32 (s.esp.toNat + 4)
  ⟨.ofNat (s.mem.load32 f), .ofNat (s.mem.load32 (f + 4)), .ofNat (s.mem.load32 (f + 8)),
    .ofNat (s.mem.load32 (f + 12)), .ofNat (s.mem.load32 (f + 16))⟩

/-- What a dispatcher keeps: it returns, and does not change the 52 bytes that were pushed before its argument. -/
structure Cdecl (f : Cpu → Cpu) : Prop where
  esp : ∀ s, (f s).esp = s.esp + 4
  saved : ∀ s x, s.esp.toNat + 8 ≤ x → x < s.esp.toNat + 60 → (f s).mem x = s.mem x

/-! ### The stack -/

/-- The words `ws` were pushed below the address `top`, and the memory is otherwise `m`. -/
structure Stacked (m : Mem) (top : ℕ) (ws : List UInt32) (s : Cpu) : Prop where
  esp : s.esp.toNat + 4 * ws.length = top
  holds : Holds s.mem s.esp.toNat ws
  rest : ∀ x, x < s.esp.toNat ∨ top ≤ x → s.mem x = m x

section Stacked

variable {m : Mem} {top : ℕ} {ws : List UInt32} {s t : Cpu} {w : UInt32}

theorem Stacked.refl (s : Cpu) : Stacked s.mem s.esp.toNat [] s := ⟨rfl, trivial, fun _ _ => rfl⟩

theorem toNat_sub_four {x : UInt32} (h : 4 ≤ x.toNat) : (x - 4).toNat = x.toNat - 4 :=
  UInt32.toNat_sub_of_le _ _ (UInt32.le_iff_toNat_le.2 h)

theorem Stacked.push (h : Stacked m top ws s) (hroom : 4 ≤ s.esp.toNat) (w : UInt32) :
    Stacked m top (w :: ws) (s.push w) := by
  have hsub := toNat_sub_four hroom
  have hesp := h.esp
  refine ⟨?_, ?_, fun x hx => ?_⟩
  · change (s.esp - 4).toNat + 4 * (ws.length + 1) = top
    omega
  · change Holds (s.mem.store32 (s.esp - 4).toNat w.toNat) (s.esp - 4).toNat (w :: ws)
    rw [hsub]
    exact h.holds.push hroom w
  · change x < (s.esp - 4).toNat ∨ top ≤ x at hx
    change s.mem.store32 (s.esp - 4).toNat w.toNat x = m x
    rw [hsub] at hx ⊢
    rw [Mem.store32_apply (by omega)]
    exact h.rest x (by omega)

theorem Stacked.pushes {vs : List UInt32} (h : Stacked m top ws s) (hroom : 4 * vs.length ≤ s.esp.toNat) :
    Stacked m top (vs.reverse ++ ws) (vs.foldl Cpu.push s) := by
  induction vs generalizing s ws with
  | nil => exact h
  | cons v vs ih =>
    rw [List.length_cons] at hroom
    have hnext := h.push (by omega) v
    have hsub : (s.push v).esp.toNat = s.esp.toNat - 4 := toNat_sub_four (by omega)
    rw [List.foldl_cons, List.reverse_cons, List.append_assoc]
    exact ih hnext (by omega)

/-- Registers other than `esp` do not count. -/
theorem Stacked.congr (h : Stacked m top ws s) (hesp : t.esp = s.esp) (hmem : t.mem = s.mem) :
    Stacked m top ws t := by
  refine ⟨hesp ▸ h.esp, ?_, ?_⟩
  · rw [hesp, hmem]
    exact h.holds
  · rw [hesp, hmem]
    exact h.rest

end Stacked

/-! ### Through the stub -/

section Through

variable {callee : Dispatcher → Cpu → Cpu} {ret v : UInt32} {err : Option UInt32} {s : Cpu}

/-- The state in which the common part calls the dispatcher, from the state `s` behind the stub. -/
def atCall (ret : UInt32) (s : Cpu) : Cpu :=
  (({ s.pusha with eax := s.pusha.esp + 32 }).push (s.pusha.esp + 32)).push ret

/-- The common part behind the call. -/
def leave (s : Cpu) : Cpu :=
  let t := ({ s with esp := s.esp + 4 }).popa
  ({ t with esp := t.esp + 8 }).iret

/-- The processor pushes an error code where the stub expects one. -/
def Expected (v : UInt32) (err : Option UInt32) : Prop := err.isSome = true ↔ v < 32 ∧ v ∈ hwerr

/-- The stub of the vector `v`. -/
def stub (v : UInt32) : List Instr := if v < 32 then isr v else irqStub v

/-- The instructions in front of the call of the dispatcher. -/
def beforeCall (v : UInt32) : List Instr := stub v ++ [.pusha, .leaEspEax 32, .pushEax]

theorem handlerCode_eq (v : UInt32) :
    handlerCode v = beforeCall v ++ .call (dispatcher v) :: [.addEsp 4, .popa, .addEsp 8, .iret] := by
  unfold handlerCode beforeCall stub dispatcher
  split
  · rw [List.append_assoc]
    rfl
  · rfl

/-- **The state in which the dispatcher is called**, when the state `s` is interrupted. -/
def callState (callee : Dispatcher → Cpu → Cpu) (ret v : UInt32) (err : Option UInt32) (s : Cpu) : Cpu :=
  (exec callee ret (beforeCall v) (s.enter err)).push ret

theorem callState_eq : callState callee ret v err s = atCall ret (exec callee ret (stub v) (s.enter err)) := by
  unfold callState beforeCall exec
  rw [List.foldl_append]
  rfl

theorem exec_handlerCode : exec callee ret (handlerCode v) (s.enter err) =
    leave (callee (dispatcher v) (callState callee ret v err s)) := by
  rw [handlerCode_eq]
  unfold callState exec
  rw [List.foldl_append]
  rfl

theorem exec_stub (v : UInt32) (s : Cpu) :
    exec callee ret (stub v) s = if v < 32 ∧ v ∈ hwerr then s.push v else (s.push 0).push v := by
  unfold stub isr
  by_cases hv : v < 32
  · by_cases he : v ∈ hwerr
    · rw [if_pos hv, if_pos he, if_pos ⟨hv, he⟩]
      rfl
    · rw [if_pos hv, if_neg he, if_neg fun h => he h.2]
      rfl
  · rw [if_neg hv, if_neg fun h => hv h.1]
    rfl

/-- **Behind the stub** the frame is complete. -/
theorem stacked_stub (h : Expected v err) (hroom : 60 ≤ s.esp.toNat) :
    Stacked s.mem s.esp.toNat [v, err.getD 0, s.eip, s.cs.toUInt32, s.eflags]
      (exec callee ret (stub v) (s.enter err)) := by
  have hlen : 4 * [s.eflags, s.cs.toUInt32, s.eip, err.getD 0, v].length ≤ s.esp.toNat := by
    simp only [List.length_cons, List.length_nil]
    omega
  have hpush := (Stacked.refl s).pushes hlen
  rw [exec_stub]
  cases err with
  | none =>
    rw [if_neg fun he => absurd (h.2 he) (by simp)]
    exact hpush.congr rfl rfl
  | some e =>
    rw [if_pos (h.1 rfl)]
    exact hpush.congr rfl rfl

/-- The words that the common part pushes before its call, the last one first. -/
def savedWords (ret : UInt32) (s : Cpu) : List UInt32 :=
  [ret, s.pusha.esp + 32, s.edi, s.esi, s.ebp, s.esp, s.ebx, s.edx, s.ecx, s.eax]

theorem stacked_atCall {m : Mem} {top : ℕ} {ws : List UInt32} (h : Stacked m top ws s) (hroom : 40 ≤ s.esp.toNat) :
    Stacked m top (savedWords ret s ++ ws) (atCall ret s) := by
  have hlen : 4 * (savedWords ret s).reverse.length ≤ s.esp.toNat := by
    rw [List.length_reverse]
    exact hroom
  have hpush := h.pushes hlen
  rw [List.reverse_reverse] at hpush
  exact hpush.congr rfl rfl

/-- **The common part behind the call** restores the registers from the stack. -/
theorem leave_eq {s : Cpu} {edi esi ebp y ebx edx ecx eax v e eip cs eflags : UInt32}
    (hesp : s.esp.toNat + 56 < 2 ^ 32)
    (h : Holds s.mem (s.esp.toNat + 4) [edi, esi, ebp, y, ebx, edx, ecx, eax, v, e, eip, cs, eflags]) :
    leave s = ⟨eax, ecx, edx, ebx, s.esp + 56, ebp, esi, edi, eip, cs.toUInt16, eflags, s.mem⟩ := by
  have h4 : (s.esp + 4).toNat = s.esp.toNat + 4 := by
    rw [UInt32.toNat_add]
    exact Nat.mod_eq_of_lt (show s.esp.toNat + 4 < 2 ^ 32 by omega)
  have h44 : (s.esp + 4 + 32 + 8).toNat = s.esp.toNat + 4 + 4 * 10 := by
    rw [UInt32.toNat_add, UInt32.toNat_add, h4]
    change ((s.esp.toNat + 4 + 32) % 2 ^ 32 + 8) % 2 ^ 32 = _
    omega
  rw [← h4] at h
  have hret : Holds s.mem (s.esp + 4 + 32 + 8).toNat [eip, cs, eflags] := by
    rw [h44, ← h4]
    exact h.drop 10
  have hpop : ∀ i w, [edi, esi, ebp, y, ebx, edx, ecx, eax, v, e, eip, cs, eflags][i]? = some w →
      ({ s with esp := s.esp + 4 } : Cpu).word i = w := fun i w hi => h.word hi
  have hiret : ∀ i w, [eip, cs, eflags][i]? = some w →
      UInt32.ofNat (s.mem.load32 ((s.esp + 4 + 32 + 8).toNat + 4 * i)) = w := fun i w hi => hret.word hi
  unfold leave Cpu.popa Cpu.iret
  rw [hpop 0 edi rfl, hpop 1 esi rfl, hpop 2 ebp rfl, hpop 4 ebx rfl, hpop 5 edx rfl, hpop 6 ecx rfl, hpop 7 eax rfl]
  unfold Cpu.word
  dsimp only
  rw [hiret 0 eip rfl, hiret 1 cs rfl, hiret 2 eflags rfl, show s.esp + 4 + 32 + 8 + 12 = s.esp + 56 by grind]

/-- The general registers, but for `esp`. -/
def Cpu.general (s : Cpu) : List UInt32 := [s.eax, s.ecx, s.edx, s.ebx, s.ebp, s.esi, s.edi]

/-- The stub and the processor do not change them. -/
theorem general_stub (callee : Dispatcher → Cpu → Cpu) (ret v : UInt32) (err : Option UInt32) (s : Cpu) :
    (exec callee ret (stub v) (s.enter err)).general = s.general := by
  have henter : (s.enter err).general = s.general := by
    cases err with
    | none => rfl
    | some e => rfl
  rw [exec_stub, ← henter]
  split
  · rfl
  · rfl

/-- **What the dispatcher finds**, and what it leaves behind when it returns. -/
theorem exec_of_expected (h : Expected v err) (hroom : 60 ≤ s.esp.toNat) (hc : Cdecl (callee (dispatcher v))) :
    let u := callState callee ret v err s
    frame u = ⟨v, err.getD 0, s.eip, s.cs.toUInt32, s.eflags⟩ ∧
      (∀ x, x + 60 < s.esp.toNat ∨ s.esp.toNat ≤ x → u.mem x = s.mem x) ∧
      exec callee ret (handlerCode v) (s.enter err) = { s with mem := (callee (dispatcher v) u).mem } := by
  have hregs := general_stub callee ret v err s
  have hstub : Stacked _ _ _ (exec callee ret (stub v) (s.enter err)) := stacked_stub h hroom
  rw [exec_handlerCode, callState_eq]
  dsimp only
  generalize exec callee ret (stub v) (s.enter err) = s₂ at hregs hstub ⊢
  simp only [Cpu.general, List.cons.injEq, and_true] at hregs
  obtain ⟨heax, hecx, hedx, hebx, hebp, hesi, hedi⟩ := hregs
  have htop₂ : s₂.esp.toNat + 20 = s.esp.toNat := hstub.esp
  have hcall : Stacked _ _ _ (atCall ret s₂) := stacked_atCall hstub (by omega)
  generalize atCall ret s₂ = u at hcall ⊢
  have htop : u.esp.toNat + 60 = s.esp.toNat := hcall.esp
  refine ⟨?_, fun x hx => hcall.rest x (by omega), ?_⟩
  · have harg : u.mem.load32 (u.esp.toNat + 4) = u.esp.toNat + 4 * 10 := by
      have hpusha : s₂.pusha.esp + 32 = s₂.esp := by
        change s₂.esp - 4 - 4 - 4 - 4 - 4 - 4 - 4 - 4 + 32 = s₂.esp
        grind
      have hword : u.mem.load32 (u.esp.toNat + 4) = (s₂.pusha.esp + 32).toNat := hcall.holds.2.1
      rw [hword, hpusha]
      omega
    have hframe := hcall.holds.drop 10
    have hword : ∀ i w, [v, err.getD 0, s.eip, s.cs.toUInt32, s.eflags][i]? = some w →
        UInt32.ofNat (u.mem.load32 (u.esp.toNat + 4 * 10 + 4 * i)) = w := fun i w hi => hframe.word hi
    unfold frame
    rw [harg]
    exact congr (congr (congr (congr (congrArg IsrFrame.mk (hword 0 _ rfl)) (hword 1 _ rfl)) (hword 2 _ rfl))
      (hword 3 _ rfl)) (hword 4 _ rfl)
  · have hesp : (callee (dispatcher v) u).esp.toNat = u.esp.toNat + 4 := by
      rw [hc.esp, UInt32.toNat_add]
      exact Nat.mod_eq_of_lt (show u.esp.toNat + 4 < 2 ^ 32 by have := s.esp.toNat_lt; omega)
    have hsaved : Holds (callee (dispatcher v) u).mem ((callee (dispatcher v) u).esp.toNat + 4)
        [s₂.edi, s₂.esi, s₂.ebp, s₂.esp, s₂.ebx, s₂.edx, s₂.ecx, s₂.eax, v, err.getD 0, s.eip, s.cs.toUInt32,
          s.eflags] := by
      rw [hesp]
      refine (hcall.holds.drop 2).congr fun x hx hx' => hc.saved u x hx ?_
      change x < u.esp.toNat + 4 * 2 + 4 * 13 at hx'
      omega
    have hend : (callee (dispatcher v) u).esp + 56 = s.esp := by
      apply UInt32.toNat.inj
      rw [UInt32.toNat_add, hesp]
      change (u.esp.toNat + 4 + 56) % 2 ^ 32 = _
      have := s.esp.toNat_lt
      omega
    rw [leave_eq (by have := s.esp.toNat_lt; omega) hsaved, hend, heax, hecx, hedx, hebx, hebp, hesi, hedi]
    have hcs : s.cs.toUInt32.toUInt16 = s.cs := UInt16.toUInt16_toUInt32 s.cs
    rw [hcs]

/-- Where the stack ends up. -/
theorem esp_handlerCode (hc : Cdecl (callee (dispatcher v))) :
    (exec callee ret (handlerCode v) (s.enter err)).esp =
      s.esp + (if v < 32 ∧ v ∈ hwerr then 4 else 0) - (if err.isSome then 4 else 0) := by
  have hleave : ∀ t : Cpu, (leave t).esp = t.esp + 4 + 32 + 8 + 12 := fun _ => rfl
  have hcall : ∀ t : Cpu, (atCall ret t).esp = t.esp - 4 - 4 - 4 - 4 - 4 - 4 - 4 - 4 - 4 - 4 := fun _ => rfl
  have hnone : (s.enter none).esp = s.esp - 4 - 4 - 4 := rfl
  have hsome : ∀ e, (s.enter (some e)).esp = s.esp - 4 - 4 - 4 - 4 := fun _ => rfl
  have hpush : ∀ (t : Cpu) (w : UInt32), (t.push w).esp = t.esp - 4 := fun _ _ => rfl
  rw [exec_handlerCode, hleave, hc.esp, callState_eq, hcall, exec_stub]
  by_cases he : v < 32 ∧ v ∈ hwerr
  · rw [if_pos he, if_pos he, hpush]
    cases err with
    | none =>
      rw [hnone, if_neg (by simp)]
      grind
    | some e =>
      rw [hsome, if_pos (show (some e).isSome = true from rfl)]
      grind
  · rw [if_neg he, if_neg he, hpush, hpush]
    cases err with
    | none =>
      rw [hnone, if_neg (by simp)]
      grind
    | some e =>
      rw [hsome, if_pos (show (some e).isSome = true from rfl)]
      grind

/-- **An interrupt restores what it has interrupted**, and its dispatcher, called in the state `u`, finds the vector,
the error code and the interrupted state, exactly if the processor pushes an error code where the stub expects one.
The memory is then as the dispatcher leaves it, who finds it unchanged but for the 60 bytes below the stack pointer. -/
theorem interrupt_restores_iff (hroom : 60 ≤ s.esp.toNat) (hc : Cdecl (callee (dispatcher v))) :
    let u := callState callee ret v err s
    (frame u = ⟨v, err.getD 0, s.eip, s.cs.toUInt32, s.eflags⟩ ∧
      (∀ x, x + 60 < s.esp.toNat ∨ s.esp.toNat ≤ x → u.mem x = s.mem x) ∧
      exec callee ret (handlerCode v) (s.enter err) = { s with mem := (callee (dispatcher v) u).mem }) ↔
      (err.isSome = true ↔ v < 32 ∧ v ∈ hwerr) := by
  constructor
  · rintro ⟨-, -, hexec⟩
    have hesp := congrArg Cpu.esp hexec
    rw [esp_handlerCode hc] at hesp
    dsimp only at hesp
    constructor
    · intro herr
      by_contra he
      rw [if_pos herr, if_neg he] at hesp
      grind
    · intro he
      by_contra herr
      rw [if_neg herr, if_pos he] at hesp
      grind
  · exact fun h => exec_of_expected h hroom hc

end Through

/-- A dispatcher that only returns. -/
def returning (s : Cpu) : Cpu := { s with esp := s.esp + 4, eax := 0, ecx := 0, edx := 0 }

theorem cdecl_returning : Cdecl returning := ⟨fun _ => rfl, fun _ _ _ _ => rfl⟩

/-- The kernel at work, on its stack. -/
def running : Cpu := ⟨1, 2, 3, 4, 0x8FFF0, 5, 6, 7, 0x10100, 8, 0x202, fun _ => 0⟩

/-- A page fault. -/
theorem interrupt_restores_pageFault :
    let u := callState (fun _ => returning) 0x10200 14 (some 2) running
    frame u = ⟨14, 2, 0x10100, 8, 0x202⟩ ∧
      exec (fun _ => returning) 0x10200 (handlerCode 14) (running.enter (some 2)) = { running with mem := u.mem } := by
  obtain ⟨hframe, -, hexec⟩ := (@interrupt_restores_iff (fun _ => returning) 0x10200 14 (some 2) running
    (by decide) cdecl_returning).2 (by decide)
  exact ⟨hframe, hexec⟩

end AuraOS.Kernel.Interrupts
