import Mathlib
import PacketHost.Bytes

/-!
# Steps that can be taken

A step of a computation over machine words is taken when its bounds hold. The lemmas of this module are
the only ones that open these steps; other modules use them by name.
-/

namespace PacketHost

variable {ε α β : Type}

@[simp] theorem ok_bind (a : α) (f : α → Except ε β) : (Except.ok a >>= f) = f a := rfl

@[simp] theorem error_bind (e : ε) (f : α → Except ε β) : (Except.error e >>= f) = .error e := rfl

@[simp] theorem pure_eq_ok (a : α) : (pure a : Except ε α) = .ok a := rfl

@[simp] theorem Halt.ofTrap_ok (a : α) : (Halt.ofTrap (.ok a) : Except (Halt ε) α) = .ok a := rfl

@[simp] theorem Halt.refuse_bind (reason : ε) (f : α → Except (Halt ε) β) :
    ((Halt.refuse reason : Except (Halt ε) α) >>= f) = Halt.refuse reason := rfl

namespace Trap

theorem add_of_lt {a b : Nat} (h : a + b < Word.limit) : Trap.add a b = .ok (a + b) := by
  unfold Trap.add Word.add?
  rw [if_pos h]

theorem mul_of_lt {a b : Nat} (h : a * b < Word.limit) : Trap.mul a b = .ok (a * b) := by
  unfold Trap.mul Word.mul?
  rw [if_pos h]

theorem sub_of_le {a b : Nat} (h : b ≤ a) : Trap.sub a b = .ok (a - b) := by
  unfold Trap.sub
  rw [if_pos h]

end Trap

theorem Extent.cut_of_le {buffer : Bytes} {start stop : Nat} (h : start ≤ stop)
    (hs : stop ≤ buffer.size) : Extent.cut buffer start stop = .ok ⟨start, stop⟩ := by
  unfold Extent.cut
  rw [if_pos ⟨h, hs⟩]

theorem Bytes.write_of_le {buffer source : Bytes} {pos : Nat} (h : pos + source.size ≤ buffer.size)
    (hl : pos + source.size < Word.limit) :
    Bytes.write buffer pos source = .ok (buffer.splice pos source) := by
  unfold Bytes.write
  rw [Trap.add_of_lt hl, ok_bind, if_pos h]

end PacketHost
