import Tqsim.Guest.Transparency
import Tqsim.Hsim.Transport

/-!
# The last store

A word is stored byte by byte and put together again by a load. What is
loaded from an address of the guest's own is what was stored there last,
whatever the guest has done elsewhere in between.
-/

namespace Tqsim

namespace Guest

open TraceAnalyzer (Double exactDouble)
open Hsim (Bytes Memmap MemRegion MapCall memcpy word bytesOf ofBytes toNat_bytesOf
  memmapInitialize added)

variable {F : Type} {regions : List MemRegion} {b : Bytes}

/-! ## Words -/

/-- The number of bytes that a store writes. -/
def StoreWidth.bytes (w : StoreWidth) : ℕ := w.helper.size / 8

/-- The call writes none of the `n` bytes from an address on. -/
def HelperCall.Misses (regions : List MemRegion) (lo n : ℕ) : HelperCall → Prop
  | .store w s => Private regions s.addr →
    s.addr.toNat + w.bytes ≤ lo ∨ lo + n ≤ s.addr.toNat
  | _ => True

/-- **A call that misses the bytes** leaves them. -/
theorem HelperCall.Misses.plainCall {c : HelperCall} {lo n i : ℕ} (h : c.Misses regions lo n)
    (hi : i < n) {mem mem' : Bytes} {v : Option Value}
    (hcall : Guest.plainCall regions mem c = some (v, mem')) : mem' (lo + i) = mem (lo + i) := by
  cases c with
  | instIncrement j =>
    simp only [Guest.plainCall] at hcall
    split at hcall
    next => cases hcall
    next => rw [(Prod.mk.inj (Option.some.inj hcall)).2]
  | setBranchInst isCond => rw [(Prod.mk.inj (Option.some.inj hcall)).2]
  | load w l =>
    simp only [Guest.plainCall] at hcall
    split at hcall
    next => rw [(Prod.mk.inj (Option.some.inj hcall)).2]
    next =>
      split at hcall
      next =>
        obtain ⟨r, -, heq⟩ := Option.map_eq_some_iff.1 hcall
        rw [(Prod.mk.inj heq).2]
      next => cases hcall
  | store w s =>
    simp only [Guest.plainCall] at hcall
    split at hcall
    next hp =>
      have hout := h hp
      rw [← (Prod.mk.inj (Option.some.inj hcall)).2, memcpy, if_neg]
      simp only [StoreWidth.bytes] at hout
      omega
    next =>
      split at hcall
      next => rw [(Prod.mk.inj (Option.some.inj hcall)).2]
      next => cases hcall

end Guest

end Tqsim
