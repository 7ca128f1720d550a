import Cpm.Proofs.AccumulatorArithmetic
import Cpm.Proofs.ConditionalTransfers
import Cpm.Proofs.MemoryFrame
import Cpm.Proofs.SpecialRegisters
import Cpm.Proofs.Z80Registers

/-!
# Exchanges undo themselves

The exchanges with the shadow bank, of DE with HL and of a pointer with the top of the stack lose
nothing: executed a second time each puts back what the first one took. With that it is told of
every register that has instructions of its own by which of them it changes.
-/

namespace Cpm

def Operation.isExchange : Operation → Bool
  | .exAf | .exx | .exDeHl | .exSp _ => true
  | _ => false

namespace Registers

variable (r : Registers) (p : Pointer)

@[simp] theorem pointer_setPointer (w : UInt16) : (r.setPointer p w).pointer p = w := by
  rcases p with _ | (_ | _)
  · exact Bank.hl_setHl _ _
  · rfl
  · rfl

/-- A pointer that was replaced can be put back. -/
theorem setPointer_setPointer_pointer (w : UInt16) :
    (r.setPointer p w).setPointer p (r.pointer p) = r := by
  rcases p with _ | (_ | _)
  · simp [setPointer, pointer, Bank.setHl, Bank.hl]
  · rfl
  · rfl

@[simp] theorem setPointer_sp (w : UInt16) : (r.setPointer p w).sp = r.sp := by
  rcases p with _ | (_ | _) <;> rfl

end Registers

namespace Core

variable (c : Core)

theorem exchangeTop_exchangeTop (p : Pointer) : (c.exchangeTop p).exchangeTop p = c := by
  simp only [exchangeTop, Registers.setPointer_sp, Registers.pointer_setPointer,
    Memory.get16_put16, Registers.setPointer_setPointer_pointer, Memory.put16_put16_get16]

/-- An exchange made twice leaves the core as it was. -/
theorem perform_perform_of_isExchange {o : Operation} (h : o.isExchange = true) :
    ((c.perform o).core.perform o).core = c := by
  cases o
  case exAf | exx | exDeHl => rfl
  case exSp p => exact c.exchangeTop_exchangeTop p
  all_goals cases h

def withPcR (c : Core) (pc : UInt16) (r : UInt8) : Core :=
  c.onRegs fun regs => { regs with pc := pc, r := r }

/-- An exchange takes no notice of the program counter and the refresh register. -/
theorem perform_withPcR {o : Operation} (h : o.isExchange = true) (pc : UInt16) (r : UInt8) :
    ((c.withPcR pc r).perform o).core = (c.perform o).core.withPcR pc r := by
  cases o
  case exAf | exx | exDeHl => rfl
  case exSp p => rcases p with _ | (_ | _) <;> rfl
  all_goals cases h

end Core

namespace Cpu

variable {σ : Type} {cpu : Cpu} {o : Operation}

/-- The bytes of an exchange that the mode has lie at the program counter. -/
structure AtExchange (cpu : Cpu) (o : Operation) : Prop where
  exchange : o.isExchange = true
  known : o.sparesExtras = true ∨ cpu.core.mode = .z80
  bytes : cpu.core.mem.getList cpu.core.regs.pc o.encode.length = o.encode

theorem AtExchange.decoded_eq (h : cpu.AtExchange o) :
    cpu.decoded.instruction = some (.operation o) ∧ cpu.decoded.length = o.encode.length := by
  obtain ⟨hexchange, hknown, hbytes⟩ := h
  cases o
  case exAf | exx =>
    obtain ⟨hop, -⟩ := List.cons.inj hbytes
    have hmode : cpu.core.mode = .z80 := hknown.resolve_left Bool.noConfusion
    rw [decoded_plain hmode hop rfl]
    exact ⟨rfl, rfl⟩
  case exDeHl =>
    rw [decoded_of_single hbytes rfl fun _ _ => rfl]
    exact ⟨rfl, rfl⟩
  case exSp p =>
    cases p with
    | hl =>
      rw [decoded_of_single hbytes rfl fun _ _ => rfl]
      exact ⟨rfl, rfl⟩
    | index i =>
      obtain ⟨hlead, hrest⟩ := List.cons.inj hbytes
      obtain ⟨hop, -⟩ := List.cons.inj hrest
      have hmode : cpu.core.mode = .z80 := hknown.resolve_left Bool.noConfusion
      rw [decoded_of_indexed (i := i) (e := ⟨0, .operation (.exSp (.index i))⟩) hmode hlead hop
        (by cases i <;> rfl) (by cases i <;> rfl)]
      exact ⟨rfl, rfl⟩
  all_goals cases hexchange

/-- One exchange, seen without the program counter and the refresh register. -/
theorem AtExchange.step_eq (h : cpu.AtExchange o) (ports : Ports σ) (fuel : Nat) (host : σ) :
    ∃ s, cpu.step ports fuel host = some s ∧ s.host = host ∧ s.cpu.core =
      (cpu.core.perform o).core.withPcR (cpu.core.regs.pc + UInt16.ofNat o.encode.length)
        s.cpu.core.regs.r := by
  obtain ⟨hi, hlength⟩ := h.decoded_eq
  refine ⟨_, cpu.step_of_operation ports fuel host hi, rfl, ?_⟩
  have hpast : cpu.past cpu.decoded = cpu.core.withPcR
      (cpu.core.regs.pc + UInt16.ofNat o.encode.length) cpu.core.regs.r := by
    rw [past, hlength]
    rfl
  rw [hpast, Core.perform_withPcR _ h.exchange]
  rfl

/-- The bytes of an exchange lie at the program counter twice, and the word on top of the stack,
where it is exchanged, is apart from the second of them. -/
structure AtExchanges (cpu : Cpu) (o : Operation) : Prop where
  exchange : o.isExchange = true
  known : o.sparesExtras = true ∨ cpu.core.mode = .z80
  bytes : cpu.core.mem.getList cpu.core.regs.pc (o.encode.length + o.encode.length) =
    o.encode ++ o.encode
  apart : ∀ p, o = .exSp p → ∀ i < o.encode.length,
    cpu.core.regs.pc + UInt16.ofNat (o.encode.length + i) ∉
      [cpu.core.regs.sp, cpu.core.regs.sp + 1]

namespace AtExchanges

theorem first (h : cpu.AtExchanges o) : cpu.AtExchange o where
  exchange := h.exchange
  known := h.known
  bytes := by
    have htake := congrArg (List.take o.encode.length) h.bytes
    rwa [Memory.take_getList _ _ (Nat.le_add_right _ _), List.take_left] at htake

/-- What the first exchange writes leaves the second where it is. -/
theorem not_mem_stores (h : cpu.AtExchanges o) {i : Nat} (hi : i < o.encode.length) :
    cpu.core.regs.pc + UInt16.ofNat (o.encode.length + i) ∉ o.stores cpu.core := by
  obtain ⟨hexchange, -, -, hapart⟩ := h
  cases o
  case exAf | exx | exDeHl => exact List.not_mem_nil
  case exSp p => exact hapart p rfl i hi
  all_goals cases hexchange

theorem second (h : cpu.AtExchanges o) {next : Cpu} {r : UInt8}
    (hnext : next.core = (cpu.core.perform o).core.withPcR
      (cpu.core.regs.pc + UInt16.ofNat o.encode.length) r) : next.AtExchange o where
  exchange := h.exchange
  known := by
    have hmode : next.core.mode = cpu.core.mode := by
      rw [hnext]
      exact cpu.core.perform_mode o
    rw [hmode]
    exact h.known
  bytes := by
    apply Memory.getList_eq
    intro i hi
    have hat := congrArg (·[o.encode.length + i]?) h.bytes
    simp only [Memory.getElem?_getList _ _ (Nat.add_lt_add_left hi _),
      List.getElem?_append_right (Nat.le_add_right _ _), Nat.add_sub_cancel_left,
      List.getElem?_eq_getElem hi, Option.some.injEq] at hat
    have hkept := cpu.core.get8_perform (h.not_mem_stores hi)
    rw [UInt16.ofNat_add, ← UInt16.add_assoc] at hat hkept
    rw [hnext]
    exact hkept.trans hat

/-- Two exchanges one after the other change the program counter and the refresh register. -/
theorem restores (h : cpu.AtExchanges o) (ports : Ports σ) (fuel : Nat) (host : σ) :
    ∃ s t, cpu.step ports fuel host = some s ∧ s.cpu.step ports fuel s.host = some t ∧
      t.host = host ∧ t.cpu.core = cpu.core.withPcR
        (cpu.core.regs.pc + UInt16.ofNat o.encode.length + UInt16.ofNat o.encode.length)
        t.cpu.core.regs.r := by
  obtain ⟨s, hs, hhost, hfirst⟩ := h.first.step_eq ports fuel host
  obtain ⟨t, ht, hhost', hsecond⟩ := (h.second hfirst).step_eq ports fuel s.host
  refine ⟨s, t, hs, ht, hhost'.trans hhost, ?_⟩
  rw [hfirst, Core.perform_withPcR _ h.exchange,
    Core.perform_perform_of_isExchange _ h.exchange] at hsecond
  exact hsecond

end AtExchanges

/-- The registers that have instructions of their own change by no other, in a step that makes no
trap. An exchange executed twice in a row brings back every register but the program counter and
the refresh register, and every byte of memory. -/
theorem special_registers_change_only_by_their_instructions (cpu : Cpu) (ports : Ports σ)
    (fuel : Nat) (host : σ) :
    (∀ s, cpu.Quiet ports fuel host → cpu.step ports fuel host = some s →
      cpu.Explains s.cpu.core) ∧
      ∀ o, cpu.AtExchanges o →
        ∃ s t, cpu.step ports fuel host = some s ∧ s.cpu.step ports fuel s.host = some t ∧
          { t.cpu.core.regs with pc := cpu.core.regs.pc, r := cpu.core.regs.r } = cpu.core.regs ∧
          t.cpu.core.mem = cpu.core.mem := by
  constructor
  · intro s hquiet h
    exact hquiet.explains h
  · intro o h
    obtain ⟨s, t, hs, ht, -, hcore⟩ := h.restores ports fuel host
    refine ⟨s, t, hs, ht, ?_, ?_⟩
    · rw [hcore]
      rfl
    · rw [hcore]
      rfl

/-- H is loaded from the byte below IX, which stays, as does IY; and IX changes places twice with
the word that lies at both ends of memory. -/
theorem load_beside_and_exchange_across_the_top :
    let mem := ((((((((Memory.blank.put8 0x100 0xDD).put8 0x101 0xE3).put8 0x102 0xDD).put8 0x103
      0xE3).put8 0x200 0xDD).put8 0x201 0x66).put8 0x202 0xFF).put8 0x2FF 0x5A).put8 0xFFFF 0xA5
    let regs := { Registers.zero with ix := 0x300 }
    let load : Cpu := ⟨⟨{ regs with pc := 0x200 }, mem, .z80⟩, 0, .base, 0, none⟩
    let exchange : Cpu := ⟨⟨{ regs with sp := 0xFFFF, pc := 0x100 }, mem, .z80⟩, 0, .base, 0, none⟩
    (load.Quiet .unattached 0 () ∧ ∃ s, load.step .unattached 0 () = some s ∧
      s.cpu.core.regs.main.h = 0x5A ∧ s.cpu.core.regs.iy = 0 ∧ s.cpu.core.mode = .z80) ∧
    (exchange.AtExchanges (.exSp (.index .ix)) ∧ ∃ s t,
      exchange.step .unattached 0 () = some s ∧ s.cpu.step .unattached 0 s.host = some t ∧
      s.cpu.core.regs.ix = 0x00A5 ∧ t.cpu.core.regs.ix = 0x300 ∧ t.cpu.core.mem = mem) := by
  intro mem regs load exchange
  have hload : load.decoded.instruction = some (.operation (.ldFrom .h (.offset .ix 0xFF))) := by
    simp only [decoded, Window.ofMemory, load, mem, Memory.get8_put8]
    rfl
  have hlead : mem.get8 0x200 = 0xDD := by simp [mem]
  have hbyte : mem.get8 (0x300 + Word.signExtend 0xFF) = 0x5A := by
    rw [show (0x300 : UInt16) + Word.signExtend 0xFF = 0x2FF by decide]
    simp [mem]
  have htop : mem.get16 0xFFFF = 0x00A5 := by
    simp only [Memory.get16, mem, Memory.get8_put8]
    rfl
  have hat : exchange.AtExchanges (.exSp (.index .ix)) := by
    refine ⟨rfl, .inr rfl, ?_, fun p _ => ?_⟩
    · show mem.getList 0x100 4 = [0xDD, 0xE3, 0xDD, 0xE3]
      simp [mem, Memory.getList]
    · show ∀ i < 2, (0x100 : UInt16) + UInt16.ofNat (2 + i) ∉ [0xFFFF, 0xFFFF + 1]
      decide
  clear_value mem
  constructor
  · have hquiet := quiet_of_operation hload Ports.unattached 0 ()
    have hs := load.step_of_operation .unattached 0 () hload
    obtain ⟨hexplains, -⟩ :=
      special_registers_change_only_by_their_instructions load .unattached 0 ()
    have hall := hexplains _ hquiet hs
    refine ⟨hquiet, _, hs, ?_, ?_, ?_⟩
    · exact hbyte
    · by_contra hne
      obtain ⟨-, hled⟩ := hall.index .iy hne
      exact absurd (hlead.symm.trans hled) (by decide)
    · by_contra hne
      obtain ⟨o, ho, -⟩ := hall.mode hne
      rw [hload] at ho
      cases ho
  · obtain ⟨-, hexchanges⟩ :=
      special_registers_change_only_by_their_instructions exchange .unattached 0 ()
    obtain ⟨s, t, hs, ht, hregs, hmem⟩ := hexchanges _ hat
    refine ⟨hat, s, t, hs, ht, ?_, ?_, hmem⟩
    · obtain ⟨s', hs', -, hcore⟩ := hat.first.step_eq .unattached 0 ()
      obtain rfl := Option.some.inj (hs.symm.trans hs')
      rw [hcore]
      exact htop
    · exact congrArg (·.ix) hregs

end Cpu

end Cpm
