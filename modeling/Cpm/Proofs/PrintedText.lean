import Cpm.Proofs.LineEditing

/-!
# Printed text

The call that prints a string looks for the first dollar sign from an address on, round the top of
memory if need be, and shows what comes before it. A memory without a dollar sign is shown
once from there on. Besides the registers in which calls return their results, nothing of the
caller changes, and none of its input is taken.
-/

namespace Cpm

namespace Memory

variable {m : Memory} {a : UInt16}

/-- The first dollar sign from `a` on lies `k` bytes behind it; or there is none, and `k` counts
all bytes of memory. -/
structure FirstDollar (m : Memory) (a : UInt16) (k : Nat) : Prop where
  before : ∀ j < k, m.get8 (a + UInt16.ofNat j) ≠ 0x24
  ends : k < 0x10000 ∧ m.get8 (a + UInt16.ofNat k) = 0x24 ∨ k = 0x10000 ∧ ∀ x, m.get8 x ≠ 0x24

/-- Every address is among the first ones behind any other. -/
theorem exists_offset (a x : UInt16) : ∃ j < 0x10000, x = a + UInt16.ofNat j := by
  refine ⟨(x - a).toNat, (x - a).toNat_lt, ?_⟩
  rw [UInt16.ofNat_toNat]
  grind

namespace FirstDollar

theorem not_lt {j k : Nat} (hj : m.FirstDollar a j) (hk : m.FirstDollar a k) : ¬ j < k := by
  intro hlt
  obtain ⟨-, hdollar⟩ | ⟨hj, -⟩ := hj.ends
  · exact hk.before j hlt hdollar
  · obtain ⟨hle, -⟩ | ⟨hle, -⟩ := hk.ends <;> omega

theorem unique {j k : Nat} (hj : m.FirstDollar a j) (hk : m.FirstDollar a k) : j = k :=
  Nat.le_antisymm (Nat.le_of_not_lt (hk.not_lt hj)) (Nat.le_of_not_lt (hj.not_lt hk))

end FirstDollar

end Memory

namespace Bios

/-- What a search for a dollar sign among the next `n` bytes comes to. -/
structure Scanned (m : Memory) (a : UInt16) (n : Nat) (r : List UInt8 × Bool) : Prop where
  text : r.1 = m.getList a r.1.length
  before : ∀ j < r.1.length, m.get8 (a + UInt16.ofNat j) ≠ 0x24
  ends : r.1.length < n ∧ m.get8 (a + UInt16.ofNat r.1.length) = 0x24 ∨ r.1.length = n

/-- A byte that is no dollar sign comes before what is found behind it. -/
theorem Scanned.cons {m : Memory} {a : UInt16} {n : Nat} {r : List UInt8 × Bool}
    (h : Scanned m (a + 1) n r) (ha : m.get8 a ≠ 0x24) :
    Scanned m a (n + 1) (m.get8 a :: r.1, r.2) := by
  have hplace : ∀ j, a + UInt16.ofNat (j + 1) = a + 1 + UInt16.ofNat j := by
    intro j
    rw [Nat.add_comm, UInt16.ofNat_add, ← UInt16.add_assoc]
    rfl
  refine ⟨?_, fun j hj => ?_, ?_⟩
  · rw [List.length_cons, Memory.getList, ← h.text]
  · cases j with
    | zero => simpa using ha
    | succ j =>
      rw [hplace]
      exact h.before j (Nat.lt_of_succ_lt_succ hj)
  · rw [List.length_cons, hplace]
    obtain ⟨hlt, hdollar⟩ | hall := h.ends
    · exact .inl ⟨Nat.succ_lt_succ hlt, hdollar⟩
    · exact .inr (congrArg (· + 1) hall)

theorem scanned_dollarText (m : Memory) (a : UInt16) (n : Nat) :
    Scanned m a n (dollarText m a n) := by
  induction n generalizing a with
  | zero => exact ⟨rfl, fun j hj => absurd hj (Nat.not_lt_zero j), .inr rfl⟩
  | succ n ih =>
    rw [dollarText]
    split
    · next hdollar =>
      exact ⟨rfl, fun j hj => absurd hj (Nat.not_lt_zero j),
        .inl ⟨Nat.succ_pos n, by simpa using hdollar⟩⟩
    · next hother => exact (ih (a + 1)).cons hother

/-- A search through the whole memory finds the first dollar sign. -/
theorem Scanned.firstDollar {m : Memory} {a : UInt16} {r : List UInt8 × Bool}
    (h : Scanned m a 0x10000 r) : m.FirstDollar a r.1.length where
  before := h.before
  ends := by
    obtain hdollar | hall := h.ends
    · exact .inl hdollar
    · refine .inr ⟨hall, fun x => ?_⟩
      obtain ⟨j, hj, rfl⟩ := Memory.exists_offset a x
      exact h.before j (by omega)

variable {κ : Type} [Console κ]

/-- The call that prints a string shows the bytes from DE up to the first dollar sign, each once
and in order, and asks nothing else of the console. It goes on, with zero returned in HL and its
copies, and all else as it was. -/
theorem print_string_shows_text_before_dollar (b : Bios κ) (c : Core)
    (hpc : c.regs.pc = Layout.bdosEntry + 2) (hfunction : c.regs.main.c = 9) :
    let start := c.regs.main.de
    let reply := trap c b
    ∃ k, c.mem.FirstDollar start k ∧ reply.action = .continue ∧
      reply.host = { b with
        console := Console.after b.console ((c.mem.getList start k).map .write) } ∧
      (∀ input, Console.Gives b.console input → Console.Gives reply.host.console input) ∧
      reply.core = { c with regs := { c.regs with
        main := { c.regs.main with h := 0, l := 0, a := 0, b := 0 } } } := by
  intro start reply
  have hscanned := scanned_dollarText c.mem start 0x10000
  have hreply : reply = b.callBdos c := by
    show trap c b = b.callBdos c
    simp only [trap, if_pos hpc]
  have hserved : reply.action = .continue ∧
      reply.host = { b with
        console := Console.writeAll b.console (dollarText c.mem start 0x10000).1 } ∧
      reply.core = returning c 0 := by
    rw [hreply]
    simp only [callBdos, serveBdos, hfunction]
    exact ⟨rfl, rfl, rfl⟩
  obtain ⟨haction, hhost, hcore⟩ := hserved
  refine ⟨_, hscanned.firstDollar, haction, ?_, fun input hinput => ?_, hcore⟩
  · rw [Console.after_write, ← hscanned.text]
    exact hhost
  · rw [hhost]
    exact hinput.writeAll _

/-- A string that runs round the top of memory is shown without its end. -/
theorem print_string_runs_round_the_top :
    let bank : Bank := { Bank.zero with c := 9, d := 0xFF, e := 0xFE, a := 7 }
    let mem := ((Memory.blank.put8 0xFFFE 0x48).put8 0xFFFF 0x69).put8 0x0000 0x24
    let c : Core := ⟨{ Registers.zero with main := bank, pc := Layout.bdosEntry + 2 }, mem, .i8080⟩
    let reply := trap c (initial (ScriptedConsole.ofInput [0x41]))
    reply.action = .continue ∧ reply.host.console.output.toList = [0x48, 0x69] ∧
      Console.Gives reply.host.console [0x41] ∧ reply.core.mem = mem ∧
      reply.core.regs.main.a = 0 ∧ reply.core.regs.main.de = 0xFFFE := by
  intro bank mem c reply
  have hde : c.regs.main.de = 0xFFFE := by
    show bank.de = 0xFFFE
    decide
  have hbytes : mem.getList 0xFFFE 2 = [0x48, 0x69] := by simp [mem, Memory.getList]
  have hfirst : mem.FirstDollar 0xFFFE 2 := by
    refine ⟨fun j hj => ?_, .inl ⟨by decide, ?_⟩⟩
    · obtain rfl | rfl : j = 0 ∨ j = 1 := by omega
      · simp [mem]
      · simp [mem]
    · simp [mem]
  clear_value mem
  obtain ⟨k, hk, haction, hhost, hgives, hcore⟩ :=
    print_string_shows_text_before_dollar (initial (ScriptedConsole.ofInput [0x41])) c rfl rfl
  rw [hde] at hk hhost
  obtain rfl := hk.unique hfirst
  refine ⟨haction, ?_, hgives [0x41] (Console.SameInput.refl _), ?_, ?_, ?_⟩
  · rw [show reply.host.console = _ from congrArg Bios.console hhost,
      ScriptedConsole.output_after, Console.written_write]
    exact hbytes
  · exact congrArg Core.mem hcore
  · exact congrArg (·.regs.main.a) hcore
  · exact (congrArg (·.regs.main.de) hcore).trans hde

end Bios

end Cpm
