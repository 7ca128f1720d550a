import Cpm.Proofs.BlockForms
import Cpm.Proofs.CarryChains
import Cpm.Proofs.MemoryBlocks

/-!
# Shifts of long numbers

A rotation through the carry moves a bit from one byte to the next, and the digit shifts move a
hexadecimal digit from one byte to the next by way of the accumulator. Chained from the lowest
byte up or from the highest down they shift a number of any length by one place. One law says
so for both: what each byte takes from the one before it and passes on is exact.
-/

namespace Cpm

/-! ### Passes over bytes -/

structure Passed (α : Type) where
  bytes : List UInt8
  out : α

section Passes

variable {α : Type} (op : UInt8 → α → UInt8 × α)

/-- Works on bytes one after another; each takes what the one before it passed on. -/
def pass : List UInt8 → α → Passed α
  | [], c => ⟨[], c⟩
  | x :: xs, c =>
    let rest := pass xs (op x c).2
    ⟨(op x c).1 :: rest.bytes, rest.out⟩

theorem length_pass (xs : List UInt8) (c : α) : (pass op xs c).bytes.length = xs.length := by
  induction xs generalizing c with
  | nil => rfl
  | cons x xs ih => simp [pass, ih]

theorem pass_concat (xs : List UInt8) (x : UInt8) (c : α) :
    pass op (xs ++ [x]) c =
      ⟨(pass op xs c).bytes ++ [(op x (pass op xs c).out).1], (op x (pass op xs c).out).2⟩ := by
  induction xs generalizing c with
  | nil => rfl
  | cons a xs ih => simp [pass, ih]

variable {op} {k : Nat} {reads : α → Nat}

/-- A byte moves up by one digit in base `k`: what leaves it above is passed on, and what was
passed on enters it below. -/
structure MovesUp (op : UInt8 → α → UInt8 × α) (k : Nat) (reads : α → Nat) : Prop where
  lt : ∀ c, reads c < k
  exact : ∀ x c, (op x c).1.toNat + 256 * reads (op x c).2 = k * x.toNat + reads c

/-- A byte moves down by one digit: what leaves it below is passed on, and what was passed on
enters it above. -/
structure MovesDown (op : UInt8 → α → UInt8 × α) (k : Nat) (reads : α → Nat) : Prop where
  lt : ∀ c, reads c < k
  exact : ∀ x c, k * (op x c).1.toNat + reads (op x c).2 = x.toNat + 256 * reads c

/-- The whole number moves up as each of its bytes does, from the lowest on. -/
theorem MovesUp.exact_pass (h : MovesUp op k reads) (xs : List UInt8) (c : α) :
    binary (pass op xs c).bytes + 256 ^ xs.length * reads (pass op xs c).out =
      k * binary xs + reads c := by
  induction xs generalizing c with
  | nil => simp [pass, binary, numberOf]
  | cons x xs ih =>
    have hbyte := h.exact x c
    have hrest := ih (op x c).2
    simp only [pass, binary_cons, List.length_cons, pow_succ]
    calc
      _ = (op x c).1.toNat + 256 * (binary (pass op xs (op x c).2).bytes +
          256 ^ xs.length * reads (pass op xs (op x c).2).out) := by ring
      _ = (op x c).1.toNat + 256 * reads (op x c).2 + 256 * (k * binary xs) := by
        rw [hrest]
        ring
      _ = k * (x.toNat + 256 * binary xs) + reads c := by
        rw [hbyte]
        ring

/-- The whole number moves down as each of its bytes does, from the highest on. -/
theorem MovesDown.exact_pass (h : MovesDown op k reads) (xs : List UInt8) (c : α) :
    k * binary (pass op xs c).bytes.reverse + reads (pass op xs c).out =
      binary xs.reverse + 256 ^ xs.length * reads c := by
  induction xs generalizing c with
  | nil => simp [pass, binary, numberOf]
  | cons x xs ih =>
    have hbyte := h.exact x c
    have hrest := ih (op x c).2
    simp only [pass, List.reverse_cons, binary_concat, List.length_reverse, length_pass,
      List.length_cons, pow_succ]
    calc
      _ = k * binary (pass op xs (op x c).2).bytes.reverse +
          reads (pass op xs (op x c).2).out + 256 ^ xs.length * (k * (op x c).1.toNat) := by ring
      _ = binary xs.reverse + 256 ^ xs.length * (k * (op x c).1.toNat + reads (op x c).2) := by
        rw [hrest]
        ring
      _ = binary xs.reverse + 256 ^ xs.length * x.toNat + 256 ^ xs.length * 256 * reads c := by
        rw [hbyte]
        ring

/-- The number that a pass from the lowest byte up gives; its highest digit is passed on. -/
theorem MovesUp.pass_eq (h : MovesUp op k reads) (xs : List UInt8) (c : α) {top : Nat}
    (htop : 256 ^ xs.length = k * top) :
    binary (pass op xs c).bytes = (k * binary xs + reads c) % 256 ^ xs.length ∧
      reads (pass op xs c).out = binary xs / top := by
  have hexact := h.exact_pass xs c
  have hlt := binary_lt (pass op xs c).bytes
  have hpos : 0 < k := Nat.zero_lt_of_lt (h.lt c)
  rw [length_pass] at hlt
  constructor
  · rw [← hexact, Nat.add_mul_mod_self_left, Nat.mod_eq_of_lt hlt]
  · calc
      _ = (binary (pass op xs c).bytes + 256 ^ xs.length * reads (pass op xs c).out) /
          256 ^ xs.length := by
        rw [Nat.add_mul_div_left _ _ (by positivity), Nat.div_eq_of_lt hlt, Nat.zero_add]
      _ = (k * binary xs + reads c) / k / top := by rw [hexact, htop, Nat.div_div_eq_div_mul]
      _ = binary xs / top := by
        rw [Nat.mul_add_div hpos, Nat.div_eq_of_lt (h.lt c), Nat.add_zero]

/-- The number that a pass from the highest byte down gives; its lowest digit is passed on. -/
theorem MovesDown.pass_eq (h : MovesDown op k reads) (xs : List UInt8) (c : α) {top : Nat}
    (htop : 256 ^ xs.length = k * top) :
    binary (pass op xs c).bytes.reverse = binary xs.reverse / k + reads c * top ∧
      reads (pass op xs c).out = binary xs.reverse % k := by
  have hexact := h.exact_pass xs c
  have hlt := h.lt (pass op xs c).out
  have hpos : 0 < k := Nat.zero_lt_of_lt hlt
  rw [htop, Nat.mul_assoc] at hexact
  constructor
  · calc
      _ = (k * binary (pass op xs c).bytes.reverse + reads (pass op xs c).out) / k := by
        rw [Nat.mul_add_div hpos, Nat.div_eq_of_lt hlt, Nat.add_zero]
      _ = binary xs.reverse / k + reads c * top := by
        rw [hexact, Nat.add_mul_div_left _ _ hpos, Nat.mul_comm top]
  · calc
      _ = (k * binary (pass op xs c).bytes.reverse + reads (pass op xs c).out) % k := by
        rw [Nat.mul_add_mod, Nat.mod_eq_of_lt hlt]
      _ = binary xs.reverse % k := by rw [hexact, Nat.add_mul_mod_self_left]

variable {up down : UInt8 → α → UInt8 × α}

/-- A pass down undoes a pass up, from what that passed on. -/
theorem MovesDown.undoes (hdown : MovesDown down k reads) (hup : MovesUp up k reads)
    (xs : List UInt8) (c : α) :
    let there := pass up xs c
    let back := pass down there.bytes.reverse there.out
    back.bytes.reverse = xs ∧ reads back.out = reads c := by
  intro there back
  have hpos : 0 < k := Nat.zero_lt_of_lt (hup.lt c)
  have hthere : there.bytes.length = xs.length := length_pass up xs c
  have hsame : k * binary back.bytes.reverse + reads back.out = k * binary xs + reads c := by
    rw [hdown.exact_pass, List.reverse_reverse, List.length_reverse, hthere, hup.exact_pass]
  constructor
  · refine binary_inj (by rw [List.length_reverse, length_pass, List.length_reverse, hthere]) ?_
    have hdiv := congrArg (· / k) hsame
    simpa only [Nat.mul_add_div hpos, Nat.div_eq_of_lt (hdown.lt _), Nat.div_eq_of_lt (hup.lt c),
      Nat.add_zero] using hdiv
  · have hmod := congrArg (· % k) hsame
    simpa only [Nat.mul_add_mod, Nat.mod_eq_of_lt (hdown.lt _), Nat.mod_eq_of_lt (hup.lt c)]
      using hmod

/-- A pass up undoes a pass down. -/
theorem MovesUp.undoes (hup : MovesUp up k reads) (hdown : MovesDown down k reads)
    (xs : List UInt8) (c : α) :
    let there := pass down xs.reverse c
    let back := pass up there.bytes.reverse there.out
    back.bytes = xs ∧ reads back.out = reads c := by
  intro there back
  have hthere : there.bytes.reverse.length = xs.length := by
    rw [List.length_reverse, length_pass, List.length_reverse]
  have hlength : back.bytes.length = xs.length := by rw [length_pass, hthere]
  have hsame : binary back.bytes + 256 ^ xs.length * reads back.out =
      binary xs + 256 ^ xs.length * reads c := by
    have hup := hup.exact_pass there.bytes.reverse there.out
    have hdown := hdown.exact_pass xs.reverse c
    rw [List.reverse_reverse, List.length_reverse] at hdown
    rw [hthere] at hup
    exact hup.trans hdown
  have hpos : 0 < 256 ^ xs.length := by positivity
  have hback := binary_lt back.bytes
  have hxs := binary_lt xs
  rw [hlength] at hback
  constructor
  · have hmod := congrArg (· % 256 ^ xs.length) hsame
    refine binary_inj hlength ?_
    simpa only [Nat.add_mul_mod_self_left, Nat.mod_eq_of_lt hback, Nat.mod_eq_of_lt hxs] using hmod
  · have hdiv := congrArg (· / 256 ^ xs.length) hsame
    simpa only [Nat.add_mul_div_left _ _ hpos, Nat.div_eq_of_lt hback, Nat.div_eq_of_lt hxs,
      Nat.zero_add] using hdiv

end Passes

/-! ### Rotations through the carry -/

namespace Alu

/-- A rotation or shift as a place of a pass: the flags bring the carry and take it on. -/
def rotated (s : Shift) (x : UInt8) (f : Flags) : UInt8 × Flags :=
  ((shift s x f).value, (shift s x f).flags)

theorem carry_shift (s : Shift) (x : UInt8) (f : Flags) : (shift s x f).flags.carry = s.bitOut x :=
  Flags.carry_set _ _

/-- The bit that leaves the byte above is worth 256, and the carry enters below. -/
theorem shifted_rl (x : UInt8) (carry : Bool) :
    (Shift.rl.shifted x carry).toNat + 256 * (Shift.rl.bitOut x).toNat =
      2 * x.toNat + carry.toNat := by
  have hall : ∀ carry, (allBytes.all fun x => (Shift.rl.shifted x carry).toNat +
      256 * (Shift.rl.bitOut x).toNat == 2 * x.toNat + carry.toNat) = true := by
    decide +kernel
  exact eq_of_beq (forall_of_all_allBytes (hall carry) x)

/-- The bit that leaves the byte below is worth one, and the carry enters above. -/
theorem shifted_rr (x : UInt8) (carry : Bool) :
    2 * (Shift.rr.shifted x carry).toNat + (Shift.rr.bitOut x).toNat =
      x.toNat + 256 * carry.toNat := by
  have hall : ∀ carry, (allBytes.all fun x => 2 * (Shift.rr.shifted x carry).toNat +
      (Shift.rr.bitOut x).toNat == x.toNat + 256 * carry.toNat) = true := by
    decide +kernel
  exact eq_of_beq (forall_of_all_allBytes (hall carry) x)

theorem movesUp_rl : MovesUp (rotated .rl) 2 (·.carry.toNat) where
  lt f := Nat.lt_succ_of_le f.carry.toNat_le
  exact x f := by
    simp only [rotated, carry_shift]
    exact shifted_rl x f.carry

theorem movesDown_rr : MovesDown (rotated .rr) 2 (·.carry.toNat) where
  lt f := Nat.lt_succ_of_le f.carry.toNat_le
  exact x f := by
    simp only [rotated, carry_shift]
    exact shifted_rr x f.carry

/-- Rotations through the carry of a number of many bytes, from flags that hold the first
carry. -/
structure RotatesNumber (xs : List UInt8) (f : Flags) : Prop where
  /-- To the left from the lowest byte up: the last carry is the top bit. -/
  left :
    let r := pass (rotated .rl) xs f
    r.bytes.length = xs.length ∧
      binary r.bytes = (2 * binary xs + f.carry.toNat) % 256 ^ xs.length ∧
      r.out.carry.toNat = binary xs / 2 ^ (8 * xs.length - 1)
  /-- To the right from the highest byte down: the last carry is the bottom bit. -/
  right :
    let r := pass (rotated .rr) xs.reverse f
    r.bytes.length = xs.length ∧
      binary r.bytes.reverse = binary xs / 2 + f.carry.toNat * 2 ^ (8 * xs.length - 1) ∧
      r.out.carry.toNat = binary xs % 2
  rightAfterLeft :
    let r := pass (rotated .rl) xs f
    let back := pass (rotated .rr) r.bytes.reverse r.out
    back.bytes.reverse = xs ∧ back.out.carry = f.carry
  leftAfterRight :
    let r := pass (rotated .rr) xs.reverse f
    let back := pass (rotated .rl) r.bytes.reverse r.out
    back.bytes = xs ∧ back.out.carry = f.carry

/-- Half of what `n` bytes can hold is the worth of their top bit. -/
theorem pow_eq_two_mul {n : Nat} (h : 0 < n) : 256 ^ n = 2 * 2 ^ (8 * n - 1) := by
  calc
    256 ^ n = 2 ^ (8 * n) := (pow_mul 2 8 n).symm
    _ = 2 ^ (8 * n - 1 + 1) := by rw [Nat.sub_add_cancel (by omega)]
    _ = 2 * 2 ^ (8 * n - 1) := pow_succ' 2 _

theorem rotatesNumber {xs : List UInt8} (hne : xs ≠ []) (f : Flags) : RotatesNumber xs f := by
  have hcarry : ∀ a b : Bool, a.toNat = b.toNat → a = b := by decide
  have htop := pow_eq_two_mul (List.length_pos_iff.mpr hne)
  have htopReverse : 256 ^ xs.reverse.length = 2 * 2 ^ (8 * xs.length - 1) := by
    rw [List.length_reverse, htop]
  refine ⟨⟨length_pass _ xs f, movesUp_rl.pass_eq xs f htop⟩, ⟨?_, ?_⟩, ?_, ?_⟩
  · rw [length_pass, List.length_reverse]
  · have hright := movesDown_rr.pass_eq xs.reverse f htopReverse
    rwa [List.reverse_reverse] at hright
  · obtain ⟨hbytes, hout⟩ := movesDown_rr.undoes movesUp_rl xs f
    exact ⟨hbytes, hcarry _ _ hout⟩
  · obtain ⟨hbytes, hout⟩ := movesUp_rl.undoes movesDown_rr xs f
    exact ⟨hbytes, hcarry _ _ hout⟩

end Alu

/-! ### Digit shifts -/

namespace Direction

/-- The digit shift of a direction: `RLD` on the way up, `RRD` on the way down. -/
def digitShift : Direction → Operation
  | .up => .rld
  | .down => .rrd

def nextByte : Direction → Operation
  | .up => .incPair (.pointer .hl)
  | .down => .decPair (.pointer .hl)

/-- What a digit shift makes of a byte of memory and the accumulator. -/
def digits : Direction → UInt8 → UInt8 → UInt8 × UInt8
  | .up, m, a => (m <<< 4 ||| a &&& 0x0F, a &&& (0xF0 : UInt8) ||| m >>> 4)
  | .down, m, a => (a <<< 4 ||| m >>> 4, a &&& 0xF0 ||| m &&& 0x0F)

end Direction

namespace Alu

/-- Two digits put together. -/
theorem toNat_or_digits {h l : UInt8} (i : Nat) (hh : h.toNat = 16 * i) (hl : l.toNat < 16) :
    (h ||| l).toNat = 16 * i + l.toNat := by
  rw [UInt8.toNat_or, hh, ← Nat.two_pow_add_eq_or_of_lt (i := 4) hl]

theorem toNat_highDigit (v : UInt8) : (v >>> 4).toNat = v.toNat / 16 := by
  rw [UInt8.toNat_shiftRight]
  exact Nat.shiftRight_eq_div_pow _ 4

theorem toNat_lowDigit (v : UInt8) : (v &&& 0x0F).toNat = v.toNat % 16 :=
  Nat.and_two_pow_sub_one_eq_mod v.toNat 4

theorem toNat_digitUp (v : UInt8) : (v <<< 4).toNat = 16 * (v.toNat % 16) := by
  have hshift : (v <<< 4).toNat = v.toNat <<< 4 % 2 ^ 8 := UInt8.toNat_shiftLeft v 4
  rw [hshift, Nat.shiftLeft_eq]
  omega

theorem toNat_highDigitKept (v : UInt8) : (v &&& 0xF0).toNat = 16 * (v.toNat / 16) := by
  have hbyte : ∀ n < 256, n &&& 240 = 16 * (n / 16) := by decide +kernel
  exact hbyte v.toNat v.toNat_lt

/-- The digits before and after. The accumulator keeps its high digit. -/
theorem toNat_digits (m a : UInt8) :
    ((Direction.up.digits m a).1.toNat = 16 * (m.toNat % 16) + a.toNat % 16 ∧
      (Direction.up.digits m a).2.toNat = 16 * (a.toNat / 16) + m.toNat / 16) ∧
    ((Direction.down.digits m a).1.toNat = 16 * (a.toNat % 16) + m.toNat / 16 ∧
      (Direction.down.digits m a).2.toNat = 16 * (a.toNat / 16) + m.toNat % 16) := by
  have hm := m.toNat_lt
  have ha := a.toNat_lt
  refine ⟨⟨?_, ?_⟩, ?_, ?_⟩
  · rw [Direction.digits, toNat_or_digits _ (toNat_digitUp m), toNat_lowDigit]
    rw [toNat_lowDigit]
    omega
  · rw [Direction.digits, toNat_or_digits _ (toNat_highDigitKept a), toNat_highDigit]
    rw [toNat_highDigit]
    omega
  · rw [Direction.digits, toNat_or_digits _ (toNat_digitUp a), toNat_highDigit]
    rw [toNat_highDigit]
    omega
  · rw [Direction.digits, toNat_or_digits _ (toNat_highDigitKept a), toNat_lowDigit]
    rw [toNat_lowDigit]
    omega

theorem movesUp_digits : MovesUp Direction.up.digits 16 (·.toNat % 16) where
  lt a := Nat.mod_lt _ (by decide)
  exact m a := by
    obtain ⟨⟨hbyte, ha⟩, -⟩ := toNat_digits m a
    have hm := m.toNat_lt
    rw [hbyte, ha]
    omega

theorem movesDown_digits : MovesDown Direction.down.digits 16 (·.toNat % 16) where
  lt a := Nat.mod_lt _ (by decide)
  exact m a := by
    obtain ⟨-, hbyte, ha⟩ := toNat_digits m a
    rw [hbyte, ha]
    omega

end Alu

namespace Memory

variable (m : Memory) (dir : Direction) (a : UInt16)

/-- The `n` bytes that a walk comes to. -/
def along (n : Nat) : List UInt8 := (List.range n).map fun i => m.get8 (dir.walk a i)

theorem length_along (n : Nat) : (m.along dir a n).length = n := by
  simp [along]

theorem along_succ (n : Nat) :
    m.along dir a (n + 1) = m.along dir a n ++ [m.get8 (dir.walk a n)] := by
  simp [along, List.range_succ]

/-- A byte that the walk does not come to can be replaced. -/
theorem along_put8 {n : Nat} {b : UInt16} (v : UInt8) (h : ∀ i < n, dir.walk a i ≠ b) :
    (m.put8 b v).along dir a n = m.along dir a n := by
  refine List.map_congr_left fun i hi => ?_
  exact get8_put8_other _ _ (h i (List.mem_range.mp hi))

theorem along_up (n : Nat) : m.along .up a n = m.getList a n := by
  have hblock : m.getList a (m.along .up a n).length = m.along .up a n := by
    refine m.getList_eq fun i hi => ?_
    simp [along, Direction.walk, Direction.stride]
  rw [← hblock, length_along]

/-- A walk down to the lowest byte of a block. -/
theorem along_down (n : Nat) :
    m.along .down (a + UInt16.ofNat n) (n + 1) = (m.getList a (n + 1)).reverse := by
  have hplace : ∀ i ≤ n, Direction.down.walk (a + UInt16.ofNat n) i = a + UInt16.ofNat (n - i) := by
    intro i hi
    obtain ⟨k, rfl⟩ := Nat.exists_eq_add_of_le hi
    rw [Nat.add_sub_cancel_left, UInt16.ofNat_add, Direction.walk, Direction.stride]
    grind
  apply List.ext_getElem?
  intro i
  by_cases hi : i ≤ n
  · have hlt : i < n + 1 := Nat.lt_succ_of_le hi
    rw [List.getElem?_reverse (by rwa [length_getList]), length_getList,
      m.getElem?_getList a (by omega), along, List.getElem?_map, List.getElem?_range hlt,
      Option.map_some, hplace i hi]
    congr 4
  · rw [List.getElem?_eq_none (by rw [length_along]; omega),
      List.getElem?_eq_none (by rw [List.length_reverse, length_getList]; omega)]

end Memory

namespace Core

variable (c : Core) (dir : Direction)

/-- Performs the digit shift of a direction at one byte and at `n` more, to which HL is counted
on. -/
def sweepDigits (c : Core) (dir : Direction) : Nat → Core
  | 0 => (c.perform dir.digitShift).core
  | n + 1 => (((c.sweepDigits dir n).perform dir.nextByte).core.perform dir.digitShift).core

/-- What digit shifts from `c` on leave: the bytes and the accumulator of a pass. -/
structure Swept (n : Nat) (after : Core) : Prop where
  bytes : after.mem.along dir c.regs.main.hl (n + 1) =
    (pass dir.digits (c.mem.along dir c.regs.main.hl (n + 1)) c.regs.main.a).bytes
  a : after.regs.main.a =
    (pass dir.digits (c.mem.along dir c.regs.main.hl (n + 1)) c.regs.main.a).out
  hl : after.regs.main.hl = dir.walk c.regs.main.hl n
  carry : after.regs.main.f.carry = c.regs.main.f.carry
  kept : ∀ b, (∀ i ≤ n, b ≠ dir.walk c.regs.main.hl i) → after.mem.get8 b = c.mem.get8 b

theorem perform_digitShift :
    let after := (c.perform dir.digitShift).core
    let r := dir.digits (c.mem.get8 c.regs.main.hl) c.regs.main.a
    after.mem = c.mem.put8 c.regs.main.hl r.1 ∧ after.regs.main.a = r.2 ∧
      after.regs.main.hl = c.regs.main.hl ∧ after.regs.main.f.carry = c.regs.main.f.carry := by
  cases dir <;> exact ⟨rfl, rfl, rfl, Flags.carry_set _ _⟩

theorem perform_nextByte :
    (c.perform dir.nextByte).core =
      c.onRegs fun r => { r with main := r.main.setHl (r.main.hl + dir.stride) } := by
  cases dir with
  | up => rfl
  | down =>
    have hback : ∀ w : UInt16, w + Direction.down.stride = w - 1 := by
      intro w
      rw [Direction.stride]
      grind
    simp only [hback]
    rfl

/-- The first of the bytes. -/
theorem swept_zero : c.Swept dir 0 (c.perform dir.digitShift).core := by
  obtain ⟨hmem, ha, hhl, hcarry⟩ := c.perform_digitShift dir
  refine ⟨?_, ?_, ?_, hcarry, ?_⟩
  · simp [hmem, Memory.along, pass]
  · simp [ha, Memory.along, pass]
  · rw [hhl, Direction.walk_zero]
  · intro b hb
    have hne : b ≠ c.regs.main.hl := by simpa using hb 0
    rw [hmem, Memory.get8_put8_other _ _ hne]

/-- One more byte, which none of the digit shifts before has touched. -/
theorem Swept.next {c : Core} {dir : Direction} {n : Nat} {after : Core}
    (h : c.Swept dir n after) (hn : n + 1 < 0x10000) :
    c.Swept dir (n + 1) ((after.perform dir.nextByte).core.perform dir.digitShift).core := by
  let at_ := (after.perform dir.nextByte).core
  have hat : at_ = _ := after.perform_nextByte dir
  have hatHl : at_.regs.main.hl = dir.walk c.regs.main.hl (n + 1) := by
    rw [hat, Direction.walk_succ, ← h.hl]
    exact Bank.hl_setHl _ _
  have hatMem : at_.mem = after.mem := by rw [hat]; rfl
  have hatA : at_.regs.main.a = after.regs.main.a := by rw [hat]; rfl
  have hatCarry : at_.regs.main.f.carry = after.regs.main.f.carry := by rw [hat]; rfl
  have hfresh : ∀ i ≤ n, dir.walk c.regs.main.hl i ≠ dir.walk c.regs.main.hl (n + 1) := by
    intro i hi he
    have := dir.walk_inj _ he
    omega
  have hbyte : after.mem.get8 (dir.walk c.regs.main.hl (n + 1)) =
      c.mem.get8 (dir.walk c.regs.main.hl (n + 1)) :=
    h.kept _ fun i hi => (hfresh i hi).symm
  obtain ⟨hmem, ha, hhl, hcarry⟩ := at_.perform_digitShift dir
  rw [hatMem, hatHl, hbyte, hatA, h.a] at hmem ha
  refine ⟨?_, ?_, hhl.trans hatHl, hcarry.trans (hatCarry.trans h.carry), ?_⟩
  · rw [Memory.along_succ, hmem, Memory.get8_put8_same,
      Memory.along_put8 _ _ _ _ fun i hi => hfresh i (Nat.le_of_lt_succ hi), h.bytes,
      c.mem.along_succ dir _ (n + 1), pass_concat]
  · rw [ha, c.mem.along_succ dir _ (n + 1), pass_concat]
  · intro b hb
    rw [hmem, Memory.get8_put8_other _ _ (hb (n + 1) (Nat.le_refl _))]
    exact h.kept b fun i hi => hb i (Nat.le_succ_of_le hi)

/-- Digit shifts at up to all the bytes of memory. -/
theorem swept_sweepDigits {n : Nat} (hn : n < 0x10000) : c.Swept dir n (c.sweepDigits dir n) := by
  induction n with
  | zero => exact c.swept_zero dir
  | succ n ih => exact (ih (Nat.lt_of_succ_lt hn)).next hn

/-- Digit shifts of a number of `n + 1` bytes, from HL on. -/
structure ShiftsDigits (n : Nat) : Prop where
  /-- Up from the lowest byte: the accumulator's digit enters, and the top digit leaves. -/
  up :
    let k := c.regs.main
    let after := c.sweepDigits .up n
    let number := binary (c.mem.getList k.hl (n + 1))
    binary (after.mem.getList k.hl (n + 1)) =
        (16 * number + k.a.toNat % 16) % 16 ^ (2 * (n + 1)) ∧
      after.regs.main.a.toNat % 16 = number / 16 ^ (2 * n + 1)
  /-- Down from the highest byte: the accumulator's digit enters, and the bottom digit leaves. -/
  down :
    let k := c.regs.main
    let after := c.sweepDigits .down n
    let lowest := k.hl - UInt16.ofNat n
    let number := binary (c.mem.getList lowest (n + 1))
    binary (after.mem.getList lowest (n + 1)) =
        number / 16 + k.a.toNat % 16 * 16 ^ (2 * n + 1) ∧
      after.regs.main.a.toNat % 16 = number % 16
  kept : ∀ dir : Direction,
    let after := c.sweepDigits dir n
    after.regs.main.a.toNat / 16 = c.regs.main.a.toNat / 16 ∧
      after.regs.main.f.carry = c.regs.main.f.carry ∧
      ∀ b, (∀ i ≤ n, b ≠ dir.walk c.regs.main.hl i) → after.mem.get8 b = c.mem.get8 b

/-- The accumulator keeps its high digit all through a pass. -/
theorem high_pass_digits (xs : List UInt8) (a : UInt8) :
    (pass dir.digits xs a).out.toNat / 16 = a.toNat / 16 := by
  induction xs generalizing a with
  | nil => rfl
  | cons x xs ih =>
    have hx := x.toNat_lt
    obtain ⟨⟨-, hup⟩, -, hdown⟩ := Alu.toNat_digits x a
    have hone : (dir.digits x a).2.toNat / 16 = a.toNat / 16 := by
      cases dir with
      | up =>
        rw [hup]
        omega
      | down =>
        rw [hdown]
        omega
    exact (ih _).trans hone

theorem shiftsDigits {n : Nat} (hn : n < 0x10000) : c.ShiftsDigits n := by
  have hwhole : 256 ^ (n + 1) = 16 ^ (2 * (n + 1)) := (pow_mul 16 2 (n + 1)).symm
  have htop : 256 ^ (n + 1) = 16 * 16 ^ (2 * n + 1) := hwhole.trans (pow_succ' 16 (2 * n + 1))
  refine ⟨?_, ?_, fun dir => ?_⟩
  · have h := c.swept_sweepDigits .up hn
    have hup := Alu.movesUp_digits.pass_eq (c.mem.along .up c.regs.main.hl (n + 1)) c.regs.main.a
      (by rw [Memory.length_along, htop])
    rwa [← h.bytes, ← h.a, Memory.length_along, Memory.along_up, Memory.along_up, hwhole] at hup
  · intro k after lowest number
    have h := c.swept_sweepDigits .down hn
    have hdown := Alu.movesDown_digits.pass_eq (c.mem.along .down k.hl (n + 1)) k.a
      (by rw [Memory.length_along, htop])
    have hlowest : ∀ m : Memory,
        m.along .down k.hl (n + 1) = (m.getList lowest (n + 1)).reverse := by
      intro m
      rw [← m.along_down lowest n, UInt16.sub_add_cancel]
    rwa [← h.bytes, ← h.a, hlowest, hlowest, List.reverse_reverse, List.reverse_reverse] at hdown
  · intro after
    have h := c.swept_sweepDigits dir hn
    refine ⟨?_, h.carry, h.kept⟩
    rw [h.a]
    exact high_pass_digits dir _ _

end Core

/-- Rotations through the carry, chained over any number of bytes, and digit shifts, at up to all
the addresses of memory one after another, move the whole number by one place. -/
theorem chained_shifts_move_whole_numbers (xs : List UInt8) (hne : xs ≠ []) (f : Flags) (c : Core)
    (n : Nat) (hn : n < 0x10000) : Alu.RotatesNumber xs f ∧ c.ShiftsDigits n :=
  ⟨Alu.rotatesNumber hne f, c.shiftsDigits hn⟩

/-- A number that is rotated out of its top bit, and one of four digits across the top of memory. -/
theorem shifts_of_two_bytes :
    let mem := (Memory.blank.put8 0xFFFF 0x34).put8 0 0x12
    let bank : Bank := { Bank.zero with h := 0xFF, l := 0xFF, a := 0xA5 }
    let c : Core := ⟨{ Registers.zero with main := bank }, mem, .z80⟩
    let rotated := pass (Alu.rotated .rl) [0x80, 0xC0] ⟨0x01⟩
    binary rotated.bytes = 0x8101 ∧ rotated.out.carry.toNat = 1 ∧
      binary ((c.sweepDigits .up 1).mem.getList 0xFFFF 2) = 0x2345 ∧
      (c.sweepDigits .up 1).regs.main.a.toNat % 16 = 1 := by
  intro mem bank c rotated
  obtain ⟨hrotates, hshifts⟩ :=
    chained_shifts_move_whole_numbers [0x80, 0xC0] (List.cons_ne_nil _ _) ⟨0x01⟩ c 1 (by decide)
  obtain ⟨-, hbinary, hcarry⟩ := hrotates.left
  obtain ⟨hdigits, ha⟩ := hshifts.up
  have hnumber : binary (c.mem.getList 0xFFFF 2) = 0x1234 := by
    have hbytes : c.mem.getList 0xFFFF 2 = [0x34, 0x12] := by
      simp only [Memory.getList, c, mem, Memory.get8_put8]
      rfl
    rw [hbytes]
    rfl
  have hhl : c.regs.main.hl = 0xFFFF := by
    show Word.ofBytes 0xFF 0xFF = 0xFFFF
    decide
  rw [hhl, hnumber] at hdigits ha
  refine ⟨hbinary, hcarry, hdigits.trans ?_, ha⟩
  show (16 * 0x1234 + (0xA5 : UInt8).toNat % 16) % 16 ^ 4 = 0x2345
  decide

end Cpm
