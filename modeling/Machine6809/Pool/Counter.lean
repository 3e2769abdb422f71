import Machine6809.Word

/-!
# Counters

The pool keeps its counts in words. Counting wraps at the ends of the range, and the count of
breaks stops at zero instead. A counter that has gone past an end no longer gives the number of
things counted, and it remembers that: `overran` stays set until the counter is made anew.
-/

namespace Machine6809

/-- A count kept in a word. -/
structure Counter where
  value : Word
  /-- The count went past an end of the range at some time. -/
  overran : Bool
  deriving DecidableEq, Repr

namespace Counter

/-- A counter that starts at a number. -/
def start (k : Nat) : Counter := { value := UInt16.ofNat k, overran := false }

/-- Count one more. -/
def up (c : Counter) : Counter :=
  { value := c.value + 1, overran := c.overran || c.value == 0xFFFF }

/-- Count one less. -/
def down (c : Counter) : Counter :=
  { value := c.value - 1, overran := c.overran || c.value == 0 }

/-- Count one less, but stop at zero. -/
def downToZero (c : Counter) : Counter :=
  if c.value == 0 then { c with overran := true } else { c with value := c.value - 1 }

/-- The counter gives the number `k`, and it has never gone past an end. -/
def Shows (c : Counter) (k : Nat) : Prop := c.value.toNat = k ∧ c.overran = false

/-! ### Going past an end -/

/-- Adding one wraps at the largest word only. -/
theorem toNat_add_one_iff (w : Word) : (w + 1).toNat = w.toNat + 1 ↔ w ≠ 0xFFFF := by
  have hlt := w.toNat_lt
  have hw : w = 0xFFFF ↔ w.toNat = 65535 := UInt16.toNat_inj.symm
  rw [UInt16.toNat_add, Ne, hw]
  change (w.toNat + 1) % 65536 = w.toNat + 1 ↔ _
  omega

/-- Taking one off wraps at zero only. -/
theorem toNat_sub_one_iff (w : Word) : w.toNat = (w - 1).toNat + 1 ↔ w ≠ 0 := by
  have hlt := w.toNat_lt
  have hw : w = 0 ↔ w.toNat = 0 := UInt16.toNat_inj.symm
  rw [UInt16.toNat_sub, Ne, hw]
  change w.toNat = (65536 - 1 + w.toNat) % 65536 + 1 ↔ _
  omega

/-- A counter has not overrun by counting up exactly if it had not before and has counted one. -/
theorem overran_up_iff (c : Counter) :
    c.up.overran = false ↔ c.overran = false ∧ c.up.value.toNat = c.value.toNat + 1 := by
  change (c.overran || c.value == 0xFFFF) = false ↔ _ ∧ (c.value + 1).toNat = _
  rw [Bool.or_eq_false_iff, beq_eq_false_iff_ne, toNat_add_one_iff]

/-- Likewise downward: no overrun if there was something to count down. -/
theorem overran_down_iff (c : Counter) :
    c.down.overran = false ↔ c.overran = false ∧ c.value.toNat = c.down.value.toNat + 1 := by
  change (c.overran || c.value == 0) = false ↔ _ ∧ _ = (c.value - 1).toNat + 1
  rw [Bool.or_eq_false_iff, beq_eq_false_iff_ne, toNat_sub_one_iff]

/-- Where the count may go down, stopping at zero makes no difference. -/
theorem downToZero_eq_down {c : Counter} (h : c.value ≠ 0) : c.downToZero = c.down := by
  have hz : (c.value == 0) = false := beq_eq_false_iff_ne.mpr h
  unfold downToZero down
  rw [hz, Bool.or_false]
  rfl

/-! ### Exact counting -/

/-- A counter shows the number that it is started with. -/
theorem shows_start {k : Nat} (hk : k < 65536) : (start k).Shows k :=
  ⟨by simp only [start, UInt16.toNat_ofNat']; exact Nat.mod_eq_of_lt hk, rfl⟩

/-- Counting up adds one if the sum fits a word. -/
theorem Shows.up {c : Counter} {k : Nat} (h : c.Shows k) (hk : k + 1 < 65536) :
    c.up.Shows (k + 1) := by
  have hv : c.up.value.toNat = c.value.toNat + 1 := by
    refine (toNat_add_one_iff c.value).mpr fun he => ?_
    have : c.value.toNat = 65535 := by rw [he]; rfl
    have := h.1
    omega
  exact ⟨hv.trans (congrArg (· + 1) h.1), (overran_up_iff c).mpr ⟨h.2, hv⟩⟩

/-- A counter that shows something is not at zero. -/
theorem Shows.value_ne_zero {c : Counter} {k : Nat} (h : c.Shows (k + 1)) : c.value ≠ 0 := by
  intro he
  have h0 : c.value.toNat = 0 := by rw [he]; rfl
  have := h.1
  omega

/-- Counting down takes one off. -/
theorem Shows.down {c : Counter} {k : Nat} (h : c.Shows (k + 1)) : c.down.Shows k := by
  have hv : c.value.toNat = c.down.value.toNat + 1 :=
    (toNat_sub_one_iff c.value).mpr h.value_ne_zero
  exact ⟨Nat.succ.inj (hv.symm.trans h.1), (overran_down_iff c).mpr ⟨h.2, hv⟩⟩

/-- So does counting down with a stop at zero. -/
theorem Shows.downToZero {c : Counter} {k : Nat} (h : c.Shows (k + 1)) :
    c.downToZero.Shows k := by
  rw [downToZero_eq_down h.value_ne_zero]
  exact h.down

end Counter

end Machine6809
