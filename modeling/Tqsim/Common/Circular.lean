import Mathlib.Tactic

/-!
# Slots of a circular buffer

Items are numbered from zero in the order they enter a buffer of `cap`
slots; item `r` sits in `slot cap base r`, where `base` is the slot of item
zero. A window of at most `cap` consecutive items occupies distinct slots,
and the order of the items in it is recovered from the slots and the slot of
the first.
-/

namespace Circular

variable {cap base lo a b r : ℕ}

/-- The slot of item `r`. -/
def slot (cap base r : ℕ) : ℕ := (base + r) % cap

theorem slot_lt (hcap : 0 < cap) : slot cap base r < cap := Nat.mod_lt _ hcap

/-- Advancing a slot is advancing the item. -/
theorem slot_succ : (slot cap base r + 1) % cap = slot cap base (r + 1) := by
  simp only [slot, Nat.mod_add_mod, Nat.add_assoc]

/-- As many items further there is the same slot. -/
theorem slot_add_cap : slot cap base (r + cap) = slot cap base r := by
  rw [slot, ← Nat.add_assoc, Nat.add_mod_right, slot]

/-- **A slot of the window, from the slot of its first item**: one wrap at
most. -/
theorem slot_eq (hcap : 0 < cap) (hlo : lo ≤ r) (hr : r < lo + cap) :
    slot cap base r =
      if slot cap base lo + (r - lo) < cap then slot cap base lo + (r - lo)
      else slot cap base lo + (r - lo) - cap := by
  have hlt : slot cap base lo < cap := slot_lt hcap
  have hsum : slot cap base r = (slot cap base lo + (r - lo)) % cap := by
    simp only [slot, Nat.mod_add_mod]
    congr 1
    omega
  rw [hsum]
  split
  · exact Nat.mod_eq_of_lt ‹_›
  · rw [Nat.mod_eq_sub_mod (by omega), Nat.mod_eq_of_lt (by omega)]

/-- Stepping back from an item's slot reaches the slot of the item before. -/
theorem slot_pred (hcap : 0 < cap) :
    (slot cap base (r + 1) + cap - 1) % cap = slot cap base r := by
  simp only [slot]
  rw [show (base + (r + 1)) % cap + cap - 1 = (base + (r + 1)) % cap + (cap - 1) by omega,
    Nat.mod_add_mod, show base + (r + 1) + (cap - 1) = base + r + cap by omega,
    Nat.add_mod_right]

/-- **Distinct items of a window sit in distinct slots.** -/
theorem slot_inj (ha : lo ≤ a) (hb : lo ≤ b) (ha' : a < lo + cap) (hb' : b < lo + cap) :
    slot cap base a = slot cap base b ↔ a = b := by
  have hcap : 0 < cap := by omega
  refine ⟨fun h => ?_, fun h => h ▸ rfl⟩
  rw [slot_eq hcap ha ha', slot_eq hcap hb hb'] at h
  have hlt : slot cap base lo < cap := slot_lt hcap
  split at h <;> split at h <;> omega

/-- How far a slot is from the first of the window. -/
theorem slot_distance (hlo : lo ≤ r) (hr : r < lo + cap) :
    (slot cap base r + cap - slot cap base lo) % cap = r - lo := by
  have hcap : 0 < cap := by omega
  have hlt : slot cap base lo < cap := slot_lt hcap
  rw [slot_eq hcap hlo hr]
  split
  · rw [show slot cap base lo + (r - lo) + cap - slot cap base lo = r - lo + cap by omega,
      Nat.add_mod_right, Nat.mod_eq_of_lt (by omega)]
  · rw [show slot cap base lo + (r - lo) - cap + cap - slot cap base lo = r - lo by omega,
      Nat.mod_eq_of_lt (by omega)]

end Circular
