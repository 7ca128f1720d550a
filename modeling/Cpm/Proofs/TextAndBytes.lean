import Cpm.Proofs.Disassembly
import Cpm.Proofs.Encodings
import Cpm.Proofs.MemoryBlocks

/-!
# The text determines the bytes

Two listings at one address that read the same were made from the same bytes, or from two
encodings of one instruction of the Z80. Which encoding it is makes no difference to
what a step does, but for the time it takes, and so the refresh register, and for where the
program counter is left.
-/

namespace Cpm

namespace Memory

/-- The first bytes of a window are those in memory. -/
theorem take_toList_ofMemory (m : Memory) (pc : UInt16) {n : Nat} (h : n ≤ 4) :
    (Window.ofMemory m pc).toList.take n = m.getList pc n := by
  have hwindow : (Window.ofMemory m pc).toList = m.getList pc 4 := by
    have h2 : pc + 1 + 1 = pc + 2 := by rw [UInt16.add_assoc]; rfl
    have h3 : pc + 2 + 1 = pc + 3 := by rw [UInt16.add_assoc]; rfl
    simp only [Window.ofMemory, Window.toList, getList, h2, h3]
  rw [hwindow, m.take_getList pc h]

end Memory

theorem AssemblyLine.spelled_data_inj {bytes₁ bytes₂ : List UInt8}
    (h : (data bytes₁).spelled = (data bytes₂).spelled) : bytes₁ = bytes₂ := by
  have hargs := congrArg AssemblyLine.arguments h
  simp only [data, spelled, List.map_map] at hargs
  exact (List.map_inj_right fun _ _ hb => Argument.byte.inj hb).mp hargs

namespace Decoded

variable {mode : Mode} {pc : UInt16} {w w₁ w₂ : Window} {i : Instruction}

theorem bytes_mem_encodings (h : (decode mode w).instruction = some i) :
    (decode mode w).bytes w ∈ i.canonical.encodings := by
  cases mode with
  | i8080 =>
    rw [bytes_i8080 h]
    exact Instruction.encode_mem_encodings _
  | z80 => exact bytes_z80 h

/-- An instruction is read back from the line made of it. -/
theorem ofLine?_spelled (pc : UInt16) (h : (decode mode w).instruction = some i) :
    Instruction.ofLine? pc ((decode mode w).line pc w).spelled = some i.canonical := by
  have hbytes := bytes_mem_encodings h
  rw [line, h]
  apply Instruction.ofLine?_line
  · exact Instruction.hasDigits_of_mem_encodings hbytes (bytes_ne_nil mode w)
  · intro hi
    have hlength := Instruction.length_of_isRelative hi hbytes
    have hle := decode_length_le mode w
    rw [bytes, List.length_take] at hlength
    have hwindow : w.toList.length = 4 := rfl
    -- The target is counted from behind two bytes, as reading assumes.
    have htwo : (decode mode w).length = 2 := by omega
    rw [htwo]
    rfl

/-- Equal text comes from equal bytes, or from two encodings of one instruction. -/
theorem bytes_eq_or_family
    (h : ((decode mode w₁).line pc w₁).text = ((decode mode w₂).line pc w₂).text) :
    (decode mode w₁).bytes w₁ = (decode mode w₂).bytes w₂ ∨
      mode = .z80 ∧ ∃ f : Family, (decode mode w₁).bytes w₁ ∈ f.encodings ∧
        (decode mode w₂).bytes w₂ ∈ f.encodings := by
  have hspelled := spelled_eq_of_text_eq h
  have hdb : (decode mode w₁).instruction = none ↔ (decode mode w₂).instruction = none := by
    rw [← db_isPrefix_text_line _ pc w₁, ← db_isPrefix_text_line _ pc w₂, h]
  cases hi₁ : (decode mode w₁).instruction with
  | none =>
    rw [line, line, hi₁, hdb.mp hi₁] at hspelled
    exact Or.inl (AssemblyLine.spelled_data_inj hspelled)
  | some i₁ =>
    obtain ⟨i₂, hi₂⟩ : ∃ i, (decode mode w₂).instruction = some i :=
      Option.ne_none_iff_exists'.mp fun hnone => by simp [hdb.mpr hnone] at hi₁
    have hread := ofLine?_spelled pc hi₁
    rw [hspelled, ofLine?_spelled pc hi₂, Option.some_inj] at hread
    cases mode with
    | i8080 => exact Or.inl (by rw [bytes_i8080 hi₁, bytes_i8080 hi₂, hread])
    | z80 =>
      have h₁ := bytes_z80 hi₁
      have h₂ := bytes_z80 hi₂
      rw [hread] at h₂
      unfold Instruction.encodings at h₁ h₂
      cases hf : i₁.canonical.family? with
      | none =>
        rw [hf] at h₁ h₂
        exact Or.inl ((List.mem_singleton.mp h₁).trans (List.mem_singleton.mp h₂).symm)
      | some f =>
        rw [hf] at h₁ h₂
        exact Or.inr ⟨rfl, f, h₁, h₂⟩

end Decoded

/-! ## Encodings of one instruction -/

namespace Family

def operation : Family → Operation
  | .neg => .neg
  | .retn => .retn
  | .im0 => .im 0
  | .im1 => .im 1
  | .im2 => .im 2
  | .storeHl addr => .ldMemPointer addr .hl
  | .loadHl addr => .ldPointerMem .hl addr

/-- The operation that an opcode of the family is decoded to. -/
def variant (op : UInt8) : Family → Operation
  | .storeHl addr => if op = 0x63 then .ldMemPair addr (.pointer .hl) else .ldMemPointer addr .hl
  | .loadHl addr => if op = 0x6B then .ldPairMem (.pointer .hl) addr else .ldPointerMem .hl addr
  | f => f.operation

theorem decode_extended (op x y : UInt8) :
    decode .z80 ⟨0xED, op, x, y⟩ = Decode.found .ed op 1 (Decode.extended op x y) := rfl

/-- A family without operands. -/
theorem instruction_of_fixed {f : Family} (hoperands : f.operands = [])
    (hlong : (f.opcodes.all fun op => !decide (op = 0x22 ∨ op = 0x2A)) = true)
    (hrow : ∀ x y, f.opcodes.map (fun op => Decode.extended op x y) =
      f.opcodes.map fun _ => Decode.entry 0 f.operation)
    {op : UInt8} (hop : op ∈ f.opcodes) {w : Window}
    (hw : w.toList.take (f.encode op).length = f.encode op) :
    (decode .z80 w).instruction = some (.operation f.operation) := by
  have hop' : ¬ (op = 0x22 ∨ op = 0x2A) := by
    have := List.all_eq_true.mp hlong op hop
    rwa [Bool.not_eq_true', decide_eq_false_iff_not] at this
  obtain ⟨b0, b1, b2, b3⟩ := w
  obtain ⟨rfl, rfl⟩ : b0 = 0xED ∧ b1 = op := by
    simpa [Window.toList, encode, hoperands, hop'] using hw
  rw [decode_extended, List.map_inj_left.mp (hrow b2 b3) b1 hop]
  rfl

/-- The opcode of the base table for a word. -/
theorem instruction_of_short (op : UInt8) (make : UInt16 → Operation)
    (hdecode : ∀ x y z, decode .z80 ⟨op, x, y, z⟩ =
      Decode.found .base op 0 (Decode.base .hl op x y))
    (hrow : ∀ x y, Decode.base .hl op x y = Decode.entry 2 (make (Word.ofBytes y x)))
    {addr : UInt16} {w : Window} (hw : w.toList.take 3 = op :: Word.bytes addr) :
    (decode .z80 w).instruction = some (.operation (make addr)) := by
  obtain ⟨b0, b1, b2, b3⟩ := w
  obtain ⟨rfl, rfl, rfl⟩ : b0 = op ∧ b1 = Word.low addr ∧ b2 = Word.high addr := by
    simpa [Window.toList, Word.bytes] using hw
  rw [hdecode, hrow, Word.ofBytes_high_low]
  rfl

/-- The opcode of the extended table for a word. -/
theorem instruction_of_long (op : UInt8) (make : UInt16 → Operation)
    (hrow : ∀ x y, Decode.extended op x y = Decode.entry 2 (make (Word.ofBytes y x)))
    {addr : UInt16} {w : Window} (hw : w.toList.take 4 = 0xED :: op :: Word.bytes addr) :
    (decode .z80 w).instruction = some (.operation (make addr)) := by
  obtain ⟨b0, b1, b2, b3⟩ := w
  obtain ⟨rfl, rfl, rfl, rfl⟩ :
      b0 = 0xED ∧ b1 = op ∧ b2 = Word.low addr ∧ b3 = Word.high addr := by
    simpa [Window.toList, Word.bytes] using hw
  rw [decode_extended, hrow, Word.ofBytes_high_low]
  rfl

theorem instruction_of_encode {f : Family} {op : UInt8} (hop : op ∈ f.opcodes) {w : Window}
    (hw : w.toList.take (f.encode op).length = f.encode op) :
    (decode .z80 w).instruction = some (.operation (f.variant op)) := by
  cases f
  case storeHl addr =>
    simp only [opcodes, List.mem_cons, List.not_mem_nil, or_false] at hop
    rcases hop with rfl | rfl
    · exact instruction_of_short 0x22 (.ldMemPointer · .hl) (fun _ _ _ => rfl) (fun _ _ => rfl) hw
    · exact instruction_of_long 0x63 (.ldMemPair · (.pointer .hl)) (fun _ _ => rfl) hw
  case loadHl addr =>
    simp only [opcodes, List.mem_cons, List.not_mem_nil, or_false] at hop
    rcases hop with rfl | rfl
    · exact instruction_of_short 0x2A (.ldPointerMem .hl ·) (fun _ _ _ => rfl) (fun _ _ => rfl) hw
    · exact instruction_of_long 0x6B (.ldPairMem (.pointer .hl) ·) (fun _ _ => rfl) hw
  all_goals exact instruction_of_fixed rfl rfl (fun _ _ => rfl) hop hw

theorem core_perform_variant (c : Core) (op : UInt8) (f : Family) :
    (c.perform (f.variant op)).core = (c.perform f.operation).core := by
  cases f <;> simp only [variant] <;> (try split) <;> rfl

/-- Where the program counter stands makes no difference but to itself. -/
theorem perform_operation_jump (c : Core) (pc : UInt16) (f : Family) :
    ((c.jump pc).perform f.operation).core.mem = (c.perform f.operation).core.mem ∧
      ((c.jump pc).perform f.operation).core.regs =
        { (c.perform f.operation).core.regs with
          pc := ((c.jump pc).perform f.operation).core.regs.pc } ∧
      (f = .retn → ((c.jump pc).perform f.operation).core.regs.pc =
        (c.perform f.operation).core.regs.pc) := by
  cases f
  case retn => exact ⟨rfl, rfl, fun _ => rfl⟩
  all_goals exact ⟨rfl, rfl, fun h => nomatch h⟩

theorem length_encode_le (f : Family) (op : UInt8) : (f.encode op).length ≤ 4 := by
  have hoperands : f.operands.length ≤ 2 := by
    cases f <;> exact Nat.le_of_ble_eq_true rfl
  unfold encode
  split <;> simp only [List.length_cons] <;> omega

end Family

namespace Cpu

variable {σ : Type} {cpu cpu₁ cpu₂ : Cpu} {f : Family}

/-- The program counter is at an encoding of a family. -/
structure PointsTo (cpu : Cpu) (f : Family) : Prop where
  mode : cpu.core.mode = .z80
  bytes : ∃ bytes ∈ f.encodings, cpu.core.mem.getList cpu.core.regs.pc bytes.length = bytes

/-- The memory is the same, and the registers are but for the program counter. -/
structure AlikeButPc (cpu₁ cpu₂ : Cpu) : Prop where
  mem : cpu₂.core.mem = cpu₁.core.mem
  regs : cpu₂.core.regs = { cpu₁.core.regs with pc := cpu₂.core.regs.pc }

/-- At an encoding of a family, a step performs the family's operation and advances the
refresh register. -/
theorem step_of_pointsTo (h : cpu.PointsTo f) (ports : Ports σ) (fuel : Nat) (host : σ) :
    ∃ s pc, cpu.step ports fuel host = some s ∧
      s.cpu.core = ((cpu.core.jump pc).perform f.operation).core.onRegs
        ({ · with r := s.cpu.core.regs.r }) := by
  obtain ⟨hmode, bytes, hbytes, hat⟩ := h
  obtain ⟨op, hop, rfl⟩ := List.mem_map.mp hbytes
  have hi : cpu.decoded.instruction = some (.operation (f.variant op)) := by
    rw [decoded, dispatch_eq_decode, hmode]
    apply Family.instruction_of_encode hop
    rw [Memory.take_toList_ofMemory _ _ (f.length_encode_le op), hat]
  refine ⟨_, (cpu.past cpu.decoded).regs.pc, cpu.step_of_operation ports fuel host hi, ?_⟩
  rw [← Family.core_perform_variant _ op f]
  rfl

theorem step_alike (h₁ : cpu₁.PointsTo f) (h₂ : cpu₂.PointsTo f)
    (halike : cpu₁.AlikeButPc cpu₂) (ports : Ports σ) (fuel : Nat) (host : σ) :
    ∃ s₁ s₂, cpu₁.step ports fuel host = some s₁ ∧ cpu₂.step ports fuel host = some s₂ ∧
      s₂.cpu.core.mem = s₁.cpu.core.mem ∧
      s₂.cpu.core.regs = { s₁.cpu.core.regs with
        pc := s₂.cpu.core.regs.pc, r := s₂.cpu.core.regs.r } ∧
      (f = .retn → s₂.cpu.core.regs.pc = s₁.cpu.core.regs.pc) := by
  obtain ⟨s₁, pc₁, hs₁, hcore₁⟩ := step_of_pointsTo h₁ ports fuel host
  obtain ⟨s₂, pc₂, hs₂, hcore₂⟩ := step_of_pointsTo h₂ ports fuel host
  have hcore : cpu₂.core = cpu₁.core.jump cpu₂.core.regs.pc := by
    rw [Core.jump, ← halike.regs, ← halike.mem, h₁.mode, ← h₂.mode]
  have hjump : cpu₂.core.jump pc₂ = (cpu₁.core.jump pc₁).jump pc₂ := by
    rw [hcore]
    rfl
  rw [hjump] at hcore₂
  obtain ⟨hmem, hregs, hpc⟩ := Family.perform_operation_jump (cpu₁.core.jump pc₁) pc₂ f
  refine ⟨s₁, s₂, hs₁, hs₂, ?_, ?_, ?_⟩
  · rw [hcore₁, hcore₂]
    exact hmem
  · rw [hcore₁, hcore₂]
    exact congrArg (fun regs => { regs with r := s₂.cpu.core.regs.r }) hregs
  · intro hf
    rw [hcore₁, hcore₂]
    exact hpc hf

end Cpu

/-- The bytes that the disassembly at an address covers. -/
def Memory.listed (m : Memory) (pc : UInt16) (mode : Mode) : List UInt8 :=
  m.getList pc (disassemble m pc mode).length

theorem Memory.listed_eq (m : Memory) (pc : UInt16) (mode : Mode) :
    m.listed pc mode = (decode mode (.ofMemory m pc)).bytes (.ofMemory m pc) :=
  (m.take_toList_ofMemory pc (decode_length_le mode _)).symm

/-- In both modes, what is listed at an address shows the bytes it was made from, but for
the seven families of the Z80 with more than one encoding; and which encoding of a family a
processor meets makes a difference to its program counter and its refresh register
alone, and only to the latter where the instruction is a return. -/
theorem text_determines_bytes {σ : Type} :
    (∀ (mode : Mode) (pc : UInt16) (m₁ m₂ : Memory),
      (disassemble m₁ pc mode).text = (disassemble m₂ pc mode).text →
        m₁.listed pc mode = m₂.listed pc mode ∨
          mode = .z80 ∧ ∃ f : Family,
            m₁.listed pc mode ∈ f.encodings ∧ m₂.listed pc mode ∈ f.encodings) ∧
    ∀ (f : Family) (cpu₁ cpu₂ : Cpu), cpu₁.PointsTo f → cpu₂.PointsTo f →
      cpu₁.AlikeButPc cpu₂ → ∀ (ports : Ports σ) (fuel : Nat) (host : σ),
        ∃ s₁ s₂, cpu₁.step ports fuel host = some s₁ ∧ cpu₂.step ports fuel host = some s₂ ∧
          s₂.cpu.core.mem = s₁.cpu.core.mem ∧
          s₂.cpu.core.regs = { s₁.cpu.core.regs with
            pc := s₂.cpu.core.regs.pc, r := s₂.cpu.core.regs.r } ∧
          (f = .retn → s₂.cpu.core.regs.pc = s₁.cpu.core.regs.pc) := by
  refine ⟨fun mode pc m₁ m₂ h => ?_, fun f cpu₁ cpu₂ h₁ h₂ halike ports fuel host =>
    Cpu.step_alike h₁ h₂ halike ports fuel host⟩
  rw [m₁.listed_eq, m₂.listed_eq]
  exact Decoded.bytes_eq_or_family h

/-- Two ways to negate the accumulator are listed alike and leave it alike. -/
theorem negations_listed_alike :
    let m := (((Memory.blank.put8 0x0100 0xED).put8 0x0101 0x44).put8 0x0200 0xED).put8 0x0201 0x7C
    let at_ (pc : UInt16) : Cpu := ⟨⟨{ Registers.zero with
      main := { Bank.zero with a := 0x05 }, pc := pc }, m, .z80⟩, 0, .base, 0, none⟩
    let other := m.put8 0x0101 0x7C
    (∃ f : Family, m.listed 0x0100 .z80 ∈ f.encodings ∧ other.listed 0x0100 .z80 ∈ f.encodings) ∧
    ∃ s₁ s₂, (at_ 0x0100).step .unattached 0 () = some s₁ ∧
      (at_ 0x0200).step .unattached 0 () = some s₂ ∧
      s₂.cpu.core.regs.main = s₁.cpu.core.regs.main := by
  intro m at_ other
  have hw : Window.ofMemory m 0x0100 = ⟨0xED, 0x44, 0, 0⟩ := by
    simp only [Window.ofMemory, m, Memory.get8_put8]
    rfl
  have hw' : Window.ofMemory other 0x0100 = ⟨0xED, 0x7C, 0, 0⟩ := by
    simp only [Window.ofMemory, other, m, Memory.get8_put8]
    rfl
  have htext : (disassemble m 0x0100 .z80).text = (disassemble other 0x0100 .z80).text := by
    simp only [disassemble, hw, hw']
    rfl
  have hne : m.listed 0x0100 .z80 ≠ other.listed 0x0100 .z80 := by
    rw [m.listed_eq, other.listed_eq, hw, hw']
    decide
  obtain ⟨htexts, hsteps⟩ := text_determines_bytes (σ := Unit)
  refine ⟨((htexts .z80 0x0100 m other htext).resolve_left hne).2, ?_⟩
  have h₁ : (at_ 0x0100).PointsTo .neg := by
    refine ⟨rfl, [0xED, 0x44], by decide, ?_⟩
    simp only [List.length_cons, List.length_nil, Memory.getList, at_, m, Memory.get8_put8]
    rfl
  have h₂ : (at_ 0x0200).PointsTo .neg := by
    refine ⟨rfl, [0xED, 0x7C], by decide, ?_⟩
    simp only [List.length_cons, List.length_nil, Memory.getList, at_, m, Memory.get8_put8]
    rfl
  obtain ⟨s₁, s₂, hs₁, hs₂, -, hregs, -⟩ :=
    hsteps .neg (at_ 0x0100) (at_ 0x0200) h₁ h₂ ⟨rfl, rfl⟩ .unattached 0 ()
  refine ⟨s₁, s₂, hs₁, hs₂, ?_⟩
  rw [hregs]

end Cpm
