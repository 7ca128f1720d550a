import Cpm.Proofs.Decoding

/-!
# Reading flags back

A flag reads as it was last set, whatever was done to the others. Of the flags that are
kept, those listed read as before and the others are clear. Two bits of the flag byte
belong to no flag: setting a flag leaves them alone, and every result clears them.
-/

namespace Cpm

theorem byte_or_and_distrib (x y z : UInt8) : (x ||| y) &&& z = x &&& z ||| y &&& z :=
  UInt8.toBitVec_inj.mp BitVec.and_or_distrib_right

theorem byte_and_or_self (x y : UInt8) : x &&& y ||| y = y := by
  apply UInt8.toBitVec_inj.mp
  ext i
  simp

namespace Flag

variable (a b : Flag)

theorem mask_ne_zero : a.mask ≠ 0 := by
  cases a <;> decide

/-- Two flags share no bit. -/
theorem mask_and_mask : a.mask &&& b.mask = if b = a then b.mask else 0 := by
  cases a <;> cases b <;> rfl

theorem not_mask_and_mask : ~~~a.mask &&& b.mask = if b = a then 0 else b.mask := by
  cases a <;> cases b <;> rfl

/-- The two bits of the flag byte that belong to no flag. -/
def spareMask : UInt8 := 0x28

theorem mask_and_spareMask : a.mask &&& spareMask = 0 := by
  cases a <;> rfl

theorem not_mask_and_spareMask : ~~~a.mask &&& spareMask = spareMask := by
  cases a <;> rfl

/-- What a list of flags masks, added to an earlier mask. -/
theorem foldl_mask_and_mask (flags : List Flag) (earlier : UInt8) :
    flags.foldl (fun mask flag => mask ||| flag.mask) earlier &&& b.mask =
      if b ∈ flags then b.mask else earlier &&& b.mask := by
  induction flags generalizing earlier with
  | nil => simp
  | cons a flags ih =>
    rw [List.foldl_cons, ih, byte_or_and_distrib, mask_and_mask]
    by_cases hmem : b ∈ flags
    · simp [hmem]
    · by_cases hb : b = a
      · subst hb
        -- The earlier mask may or may not have the bit already.
        simp [hmem, byte_and_or_self]
      · simp [hmem, hb]

/-- No flag masks a spare bit. -/
theorem foldl_mask_and_spareMask (flags : List Flag) (earlier : UInt8) :
    flags.foldl (fun mask flag => mask ||| flag.mask) earlier &&& spareMask =
      earlier &&& spareMask := by
  induction flags generalizing earlier with
  | nil => rfl
  | cons a flags ih =>
    rw [List.foldl_cons, ih, byte_or_and_distrib, mask_and_spareMask, UInt8.or_zero]

end Flag

namespace Flags

variable (f : Flags) (a b : Flag) (on : Bool)

/-- A flag reads as it was set, and the others as before. -/
@[simp] theorem get_set : (f.set a on).get b = if b = a then on else f.get b := by
  cases on with
  | true =>
    simp only [get, set, if_true, byte_or_and_distrib, Flag.mask_and_mask]
    split
    · have hmask := b.mask_ne_zero
      simp [hmask]
    · rw [UInt8.or_zero]
  | false =>
    simp only [get, set, Bool.false_eq_true, if_false, UInt8.and_assoc, Flag.not_mask_and_mask]
    split
    · rw [UInt8.and_zero]
      rfl
    · rfl

@[simp] theorem get_none : none.get b = false := by
  cases b <;> rfl

/-- The listed flags are kept, and the others are clear. -/
@[simp] theorem get_keep (flags : List Flag) :
    (f.keep flags).get b = (decide (b ∈ flags) && f.get b) := by
  simp only [get, keep, UInt8.and_assoc, Flag.foldl_mask_and_mask]
  by_cases hmem : b ∈ flags <;> simp [hmem]

/-- The flags that a result alone determines. -/
@[simp] theorem get_ofSignZero (v : UInt8) :
    (ofSignZero v).get b =
      match b with
      | .sign => decide (128 ≤ v.toNat)
      | .zero => decide (v = 0)
      | _ => false := by
  apply eq_of_all_allBytes (f := fun v => (ofSignZero v).get b) (g := fun v =>
    match b with
    | .sign => decide (128 ≤ v.toNat)
    | .zero => decide (v = 0)
    | _ => false)
  cases b <;> decide +kernel

theorem ofSignZeroParity_eq (v : UInt8) :
    ofSignZeroParity v =
      if evenParity v then (ofSignZero v).set .parityOverflow true else ofSignZero v := by
  unfold ofSignZeroParity
  split
  · rfl
  · rw [UInt8.or_zero]

@[simp] theorem get_ofSignZeroParity (v : UInt8) :
    (ofSignZeroParity v).get b =
      if b = .parityOverflow then evenParity v else (ofSignZero v).get b := by
  rw [ofSignZeroParity_eq]
  by_cases hb : b = .parityOverflow
  · subst hb
    split <;> simp_all
  · split <;> simp [hb]

@[simp] theorem carry_set (on : Bool) : (f.set .carry on).carry = on := by
  simp [carry]

def spare : UInt8 := f.bits &&& Flag.spareMask

@[simp] theorem spare_set : (f.set a on).spare = f.spare := by
  cases on with
  | true =>
    simp only [spare, set, if_true, byte_or_and_distrib, Flag.mask_and_spareMask, UInt8.or_zero]
  | false =>
    simp only [spare, set, Bool.false_eq_true, if_false, UInt8.and_assoc,
      Flag.not_mask_and_spareMask]

@[simp] theorem spare_none : none.spare = 0 := rfl

@[simp] theorem spare_keep (flags : List Flag) : (f.keep flags).spare = 0 := by
  rw [spare, keep, UInt8.and_assoc, Flag.foldl_mask_and_spareMask, UInt8.zero_and, UInt8.and_zero]

@[simp] theorem spare_ofSignZero (v : UInt8) : (ofSignZero v).spare = 0 :=
  eq_of_all_allBytes (f := fun v => (ofSignZero v).spare) (g := fun _ => 0) (by decide +kernel) v

@[simp] theorem spare_ofSignZeroParity (v : UInt8) : (ofSignZeroParity v).spare = 0 := by
  rw [ofSignZeroParity_eq]
  split <;> simp

end Flags

end Cpm
