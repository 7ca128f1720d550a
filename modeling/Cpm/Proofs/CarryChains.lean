import Cpm.Proofs.AccumulatorArithmetic
import Mathlib.Data.Nat.Digits.Defs

/-!
# Numbers of many bytes

A number is written in bytes, the lowest first, and worked on from the lowest byte up: each
place takes the carry that the flags of the place before hold. Where every place is exact up
to its carry the whole is, in any base and for any reading of a byte as a digit. Read in base
256, sums and differences are those of natural numbers, and the flags of the highest byte
speak of the whole number in two's complement.
-/

namespace Cpm

/-- The number that bytes stand for, each read as a digit. -/
def numberOf (base : Nat) (digit : UInt8 → Nat) (bytes : List UInt8) : Nat :=
  Nat.ofDigits base (bytes.map digit)

theorem numberOf_cons (base : Nat) (digit : UInt8 → Nat) (b : UInt8) (bytes : List UInt8) :
    numberOf base digit (b :: bytes) = digit b + base * numberOf base digit bytes :=
  Nat.ofDigits_cons

theorem numberOf_concat (base : Nat) (digit : UInt8 → Nat) (b : UInt8) (bytes : List UInt8) :
    numberOf base digit (bytes ++ [b]) =
      numberOf base digit bytes + base ^ bytes.length * digit b := by
  simp only [numberOf, List.map_append, List.map_cons, List.map_nil, Nat.ofDigits_append,
    List.length_map, Nat.ofDigits_singleton]

namespace Alu

structure Chained where
  bytes : List UInt8
  flags : Flags

/-- Works on two numbers of one length place by place, from the lowest byte up. -/
def chain (op : UInt8 → UInt8 → Bool → ByteResult) : List UInt8 → List UInt8 → Flags → Chained
  | x :: xs, y :: ys, f =>
    let r := op x y f.carry
    let rest := chain op xs ys r.flags
    ⟨r.value :: rest.bytes, rest.flags⟩
  | _, _, f => ⟨[], f⟩

/-- On valid digits the operation gives a valid digit and the exact result up to the carry:
the sum of the digits where `sign` is 1, the difference where it is -1. -/
structure ExactInPlace (op : UInt8 → UInt8 → Bool → ByteResult) (base : Nat)
    (digit : UInt8 → Nat) (sign : Int) (Valid : UInt8 → Prop) : Prop where
  valid : ∀ x y carry, Valid x → Valid y → Valid (op x y carry).value
  exact : ∀ x y carry, Valid x → Valid y →
    (digit (op x y carry).value : Int) = digit x +
      sign * (digit y + carry.toNat - base * (op x y carry).flags.carry.toNat)

section Chains

variable {op : UInt8 → UInt8 → Bool → ByteResult} {base : Nat} {digit : UInt8 → Nat} {sign : Int}
  {Valid : UInt8 → Prop} {xs ys : List UInt8}

theorem length_chain (hlength : xs.length = ys.length) (f : Flags) :
    (chain op xs ys f).bytes.length = xs.length := by
  induction xs generalizing ys f with
  | nil => simp [chain]
  | cons x xs ih =>
    cases ys with
    | nil => simp at hlength
    | cons y ys =>
      have hrest : xs.length = ys.length := by simpa using hlength
      simp [chain, ih hrest]

/-- The highest place takes the carry of all the places below it. -/
theorem chain_concat (hlength : xs.length = ys.length) (x y : UInt8) (f : Flags) :
    chain op (xs ++ [x]) (ys ++ [y]) f =
      ⟨(chain op xs ys f).bytes ++ [(op x y (chain op xs ys f).flags.carry).value],
        (op x y (chain op xs ys f).flags.carry).flags⟩ := by
  induction xs generalizing ys f with
  | nil =>
    cases ys with
    | nil => rfl
    | cons y ys => simp at hlength
  | cons a xs ih =>
    cases ys with
    | nil => simp at hlength
    | cons b ys =>
      have hrest : xs.length = ys.length := by simpa using hlength
      simp only [List.cons_append, chain, ih hrest]

namespace ExactInPlace

theorem valid_chain (h : ExactInPlace op base digit sign Valid) (hlength : xs.length = ys.length)
    (hxs : ∀ x ∈ xs, Valid x) (hys : ∀ y ∈ ys, Valid y) (f : Flags) :
    ∀ r ∈ (chain op xs ys f).bytes, Valid r := by
  induction xs generalizing ys f with
  | nil => simp [chain]
  | cons x xs ih =>
    cases ys with
    | nil => simp at hlength
    | cons y ys =>
      obtain ⟨hx, hxs⟩ := List.forall_mem_cons.mp hxs
      obtain ⟨hy, hys⟩ := List.forall_mem_cons.mp hys
      have hrest : xs.length = ys.length := by simpa using hlength
      exact List.forall_mem_cons.mpr ⟨h.valid x y f.carry hx hy, ih hrest hxs hys _⟩

/-- The carry of each place is what the next one lacks, so only the last carry is left over. -/
theorem exact_chain (h : ExactInPlace op base digit sign Valid) (hlength : xs.length = ys.length)
    (hxs : ∀ x ∈ xs, Valid x) (hys : ∀ y ∈ ys, Valid y) (f : Flags) :
    (numberOf base digit (chain op xs ys f).bytes : Int) = numberOf base digit xs +
      sign * (numberOf base digit ys + f.carry.toNat -
        base ^ xs.length * (chain op xs ys f).flags.carry.toNat) := by
  induction xs generalizing ys f with
  | nil =>
    have hnil : ys = [] := List.length_eq_zero_iff.mp hlength.symm
    subst hnil
    simp [chain, numberOf]
  | cons x xs ih =>
    cases ys with
    | nil => simp at hlength
    | cons y ys =>
      obtain ⟨hx, hxs⟩ := List.forall_mem_cons.mp hxs
      obtain ⟨hy, hys⟩ := List.forall_mem_cons.mp hys
      have hrest : xs.length = ys.length := by simpa using hlength
      have hplace := h.exact x y f.carry hx hy
      have hplaces := ih hrest hxs hys (op x y f.carry).flags
      simp only [chain, numberOf_cons, List.length_cons, pow_succ]
      push_cast
      rw [hplace, hplaces]
      ring

end ExactInPlace

end Chains

end Alu

/-! ### Bytes as digits in base 256 -/

def binary (bytes : List UInt8) : Nat := numberOf 256 UInt8.toNat bytes

def signedBinary (bytes : List UInt8) : Int :=
  if 2 * binary bytes < 256 ^ bytes.length then binary bytes
  else (binary bytes : Int) - 256 ^ bytes.length

/-- The number is out of the range of `n` bytes in two's complement. -/
def overflowsBytes (n : Nat) (x : Int) : Bool := 2 * x < -256 ^ n || 256 ^ n ≤ 2 * x

theorem binary_lt (bytes : List UInt8) : binary bytes < 256 ^ bytes.length := by
  have hlt : ∀ d ∈ bytes.map UInt8.toNat, d < 256 := by
    rw [List.forall_mem_map]
    exact fun b _ => b.toNat_lt
  have := Nat.ofDigits_lt_base_pow_length (by decide) hlt
  rwa [List.length_map] at this

theorem binary_cons (b : UInt8) (bytes : List UInt8) :
    binary (b :: bytes) = b.toNat + 256 * binary bytes :=
  numberOf_cons 256 UInt8.toNat b bytes

theorem binary_concat (bytes : List UInt8) (b : UInt8) :
    binary (bytes ++ [b]) = binary bytes + 256 ^ bytes.length * b.toNat :=
  numberOf_concat 256 UInt8.toNat b bytes

/-- Different bytes of one length stand for different numbers. -/
theorem binary_inj {xs ys : List UInt8} (hlength : xs.length = ys.length)
    (h : binary xs = binary ys) : xs = ys := by
  have hdigits : ∀ bytes : List UInt8, ∀ d ∈ bytes.map UInt8.toNat, d < 256 := by
    intro bytes
    rw [List.forall_mem_map]
    exact fun b _ => b.toNat_lt
  have hmap := Nat.ofDigits_inj_of_len_eq (by decide) (by simpa using hlength) (hdigits xs)
    (hdigits ys) h
  exact (List.map_inj_right fun _ _ => UInt8.toNat_inj.mp).mp hmap

/-- Only the highest byte has a sign. -/
theorem signedBinary_concat (bytes : List UInt8) (b : UInt8) :
    signedBinary (bytes ++ [b]) = binary bytes + 256 ^ bytes.length * signed b := by
  have hlow := binary_lt bytes
  have hvalue := binary_concat bytes b
  have hlength : (bytes ++ [b]).length = bytes.length + 1 := List.length_append
  have htop : 2 * binary (bytes ++ [b]) < 256 ^ (bytes ++ [b]).length ↔ b.toNat < 128 := by
    rw [hvalue, hlength, pow_succ]
    generalize 256 ^ bytes.length = whole at *
    constructor
    · intro h
      by_contra hb
      have := Nat.mul_le_mul_left whole (Nat.le_of_not_lt hb)
      omega
    · intro h
      have := Nat.mul_le_mul_left whole (Nat.succ_le_of_lt h)
      rw [Nat.mul_succ] at this
      omega
  rw [signedBinary, signed_eq]
  split
  · next h =>
    rw [if_neg (Nat.not_le_of_lt (htop.mp h)), hvalue]
    push_cast
    ring
  · next h =>
    rw [if_pos (Nat.le_of_not_lt (mt htop.mpr h)), hvalue, hlength, pow_succ]
    push_cast
    ring

/-- The sign of a number is that of its highest byte. -/
theorem signedBinary_concat_neg_iff (bytes : List UInt8) (b : UInt8) :
    signedBinary (bytes ++ [b]) < 0 ↔ 128 ≤ b.toNat := by
  have hlow : (binary bytes : Int) < 256 ^ bytes.length := by exact_mod_cast binary_lt bytes
  rw [signedBinary_concat, signed_eq]
  split
  · next h =>
    have hbyte := b.toNat_lt
    have htop : (b.toNat : Int) - 256 ≤ -1 := by omega
    exact iff_of_true (by nlinarith) h
  · next h => exact iff_of_false (not_lt.mpr (by positivity)) h

/-- A number is out of range exactly if what it has in the highest place is. -/
theorem overflowsBytes_concat {low n : Nat} (hlow : low < 256 ^ n) (top : Int) :
    overflowsBytes (n + 1) (low + 256 ^ n * top) = overflows top := by
  have hwhole : (256 ^ (n + 1) : Int) = 256 * 256 ^ n := by ring
  have hlow : (low : Int) < 256 ^ n := by exact_mod_cast hlow
  have hpos : (0 : Int) < 256 ^ n := by positivity
  have hbelow : 2 * (low + 256 ^ n * top) < -(256 * 256 ^ n) ↔ top < -128 := by
    constructor
    · intro h
      by_contra htop
      nlinarith
    · intro h
      have hle : top + 1 ≤ -128 := h
      nlinarith
  have habove : (256 * 256 ^ n : Int) ≤ 2 * (low + 256 ^ n * top) ↔ 127 < top := by
    constructor
    · intro h
      by_contra htop
      have hle : top + 1 ≤ 128 := by omega
      nlinarith
    · intro h
      have hle : 128 ≤ top := h
      nlinarith
  simp only [overflowsBytes, overflows, hwhole, hbelow, habove]

namespace Alu

theorem toNat_decide (p : Prop) [Decidable p] : (decide p).toNat = if p then 1 else 0 :=
  Bool.cond_decide p 1 0

theorem carry_add8 (x y : UInt8) (carry : Bool) (mode : Mode) :
    (add8 x y carry mode).flags.carry = decide (x.toNat + y.toNat + carry.toNat > 0xFF) := by
  simp [add8, Flags.carry]

theorem carry_sub8 (x y : UInt8) (carry : Bool) (mode : Mode) :
    (sub8 x y carry mode).flags.carry = decide (x.toNat < y.toNat + carry.toNat) := by
  simp [sub8, Flags.carry]

/-- A byte is a digit in base 256. -/
theorem exactInPlace_add8 (mode : Mode) :
    ExactInPlace (add8 · · · mode) 256 UInt8.toNat 1 fun _ => True where
  valid _ _ _ _ _ := trivial
  exact x y carry _ _ := by
    have hvalue : (add8 x y carry mode).value.toNat = _ := toNat_sum x y carry
    have hx := x.toNat_lt
    have hy := y.toNat_lt
    have hc := carry.toNat_le
    rw [hvalue, carry_add8, toNat_decide]
    split <;> omega

theorem exactInPlace_sub8 (mode : Mode) :
    ExactInPlace (sub8 · · · mode) 256 UInt8.toNat (-1) fun _ => True where
  valid _ _ _ _ _ := trivial
  exact x y carry _ _ := by
    have hvalue : (sub8 x y carry mode).value.toNat = _ := toNat_difference x y carry
    have hx := x.toNat_lt
    have hy := y.toNat_lt
    have hc := carry.toNat_le
    rw [hvalue, carry_sub8, toNat_decide]
    split <;> omega

section Highest

variable {op : UInt8 → UInt8 → Bool → ByteResult} {sign : Int} {xs ys : List UInt8}

theorem exists_highest (hlength : xs.length = ys.length) (hne : xs ≠ []) :
    ∃ lowX x lowY y, xs = lowX ++ [x] ∧ ys = lowY ++ [y] ∧ lowX.length = lowY.length := by
  have hne' : ys ≠ [] := by
    rintro rfl
    exact hne (List.length_eq_zero_iff.mp hlength)
  exact ⟨xs.dropLast, xs.getLast hne, ys.dropLast, ys.getLast hne',
    (List.dropLast_concat_getLast hne).symm, (List.dropLast_concat_getLast hne').symm,
    by rw [List.length_dropLast, List.length_dropLast, hlength]⟩

/-- Where the flags of each place describe its result, the last ones describe the number. -/
theorem describes_chain
    (hdescribes : ∀ x y carry, (op x y carry).flags.Describes (op x y carry).value)
    (hlength : xs.length = ys.length) (hne : xs ≠ []) (f : Flags) :
    (chain op xs ys f).flags.sign = decide (signedBinary (chain op xs ys f).bytes < 0) ∧
      (chain op xs ys f).flags.spare = 0 := by
  obtain ⟨lowX, x, lowY, y, rfl, rfl, hlow⟩ := exists_highest hlength hne
  rw [chain_concat hlow]
  have htop := hdescribes x y (chain op lowX lowY f).flags.carry
  refine ⟨?_, htop.spare⟩
  rw [htop.sign, decide_eq_decide, signedBinary_concat_neg_iff]

/-- Parity/overflow of the highest place tells whether the whole result is out of range. -/
theorem overflow_chain (hexact : ExactInPlace op 256 UInt8.toNat sign fun _ => True)
    (hoverflow : ∀ x y carry, (op x y carry).flags.parityOverflow =
      overflows (signed x + sign * (signed y + carry.toNat)))
    (hlength : xs.length = ys.length) (hne : xs ≠ []) (f : Flags) :
    (chain op xs ys f).flags.parityOverflow =
      overflowsBytes xs.length (signedBinary xs + sign * (signedBinary ys + f.carry.toNat)) := by
  obtain ⟨lowX, x, lowY, y, rfl, rfl, hlow⟩ := exists_highest hlength hne
  rw [chain_concat hlow]
  have hlength' : (chain op lowX lowY f).bytes.length = lowX.length := length_chain hlow f
  have hlt := binary_lt (chain op lowX lowY f).bytes
  have hvalue : (binary (chain op lowX lowY f).bytes : Int) = _ :=
    hexact.exact_chain hlow (fun _ _ => trivial) (fun _ _ => trivial) f
  -- What the places below the highest lack is the carry that the highest takes.
  have hwhole : signedBinary (lowX ++ [x]) +
      sign * (signedBinary (lowY ++ [y]) + f.carry.toNat) =
      binary (chain op lowX lowY f).bytes + 256 ^ lowX.length *
        (signed x + sign * (signed y + (chain op lowX lowY f).flags.carry.toNat)) := by
    rw [signedBinary_concat, signedBinary_concat, hvalue, hlow, binary, binary]
    push_cast
    ring
  rw [hlength'] at hlt
  rw [hwhole, List.length_append, List.length_singleton, overflowsBytes_concat hlt]
  exact hoverflow x y _

end Highest

namespace Chained

variable (r : Chained) (mode : Mode) (xs ys : List UInt8) (carry : Bool)

/-- The bytes are the exact sum, of the same length, with what does not fit as the last carry.
The sign is that of the whole number, and in Z80 mode parity/overflow tells whether the sum of
the signed numbers is out of range. -/
structure IsSum : Prop where
  length : r.bytes.length = xs.length
  value : binary r.bytes + 256 ^ xs.length * r.flags.carry.toNat =
    binary xs + binary ys + carry.toNat
  overflow : mode = .z80 → r.flags.parityOverflow =
    overflowsBytes xs.length (signedBinary xs + signedBinary ys + carry.toNat)
  sign : r.flags.sign = decide (signedBinary r.bytes < 0)
  spare : r.flags.spare = 0

/-- The same for a difference, with the last carry as what was borrowed. -/
structure IsDifference : Prop where
  length : r.bytes.length = xs.length
  value : (binary r.bytes : Int) =
    binary xs - binary ys - carry.toNat + 256 ^ xs.length * r.flags.carry.toNat
  overflow : mode = .z80 → r.flags.parityOverflow =
    overflowsBytes xs.length (signedBinary xs - signedBinary ys - carry.toNat)
  sign : r.flags.sign = decide (signedBinary r.bytes < 0)
  spare : r.flags.spare = 0

end Chained

section Numbers

variable {xs ys : List UInt8} (hlength : xs.length = ys.length) (hne : xs ≠ []) (mode : Mode)
  (f : Flags)

include hlength hne

theorem chain_isSum :
    (chain (add8 · · · mode) xs ys f).IsSum mode xs ys f.carry := by
  have hexact : (binary (chain (add8 · · · mode) xs ys f).bytes : Int) = _ :=
    (exactInPlace_add8 mode).exact_chain hlength (fun _ _ => trivial) (fun _ _ => trivial) f
  have hdescribes := describes_chain (fun x y carry => (ofSum_add8 x y carry mode).toDescribes)
    hlength hne f
  refine ⟨length_chain hlength f, ?_, ?_, hdescribes.1, hdescribes.2⟩
  · zify
    rw [hexact, binary, binary]
    ring
  · rintro rfl
    have hoverflow : ∀ x y carry, (add8 x y carry .z80).flags.parityOverflow =
        overflows (signed x + 1 * (signed y + carry.toNat)) := by
      intro x y carry
      rw [(ofSum_add8 x y carry .z80).parityOverflow, one_mul, ← add_assoc]
      rfl
    rw [overflow_chain (exactInPlace_add8 .z80) hoverflow hlength hne f, one_mul, ← add_assoc]

theorem chain_isDifference :
    (chain (sub8 · · · mode) xs ys f).IsDifference mode xs ys f.carry := by
  have hexact : (binary (chain (sub8 · · · mode) xs ys f).bytes : Int) = _ :=
    (exactInPlace_sub8 mode).exact_chain hlength (fun _ _ => trivial) (fun _ _ => trivial) f
  have hdescribes := describes_chain
    (fun x y carry => (ofDifference_sub8 x y carry mode).toDescribes) hlength hne f
  have hsign : ∀ x y c : Int, x + -1 * (y + c) = x - y - c := by
    intro x y c
    ring
  refine ⟨length_chain hlength f, ?_, ?_, hdescribes.1, hdescribes.2⟩
  · rw [hexact, binary, binary]
    ring
  · rintro rfl
    have hoverflow : ∀ x y carry, (sub8 x y carry .z80).flags.parityOverflow =
        overflows (signed x + -1 * (signed y + carry.toNat)) := by
      intro x y carry
      rw [(ofDifference_sub8 x y carry .z80).parityOverflow, hsign]
      rfl
    rw [overflow_chain (exactInPlace_sub8 .z80) hoverflow hlength hne f, hsign]

end Numbers

end Alu

end Cpm
