import Mathlib.Algebra.Group.Nat.Defs
import Mathlib.Data.List.Basic
import Mathlib.Tactic.Common

/-! # Kernel memory as the C code sees it

Addresses and sizes are naturals; where the source computes in `size_t` the sum is
reduced by `wrap`.  `Memory.byte` is the flat memory: `none` is an address that is
not mapped, so that a read through a NULL or an error pointer has no value.

`kmalloc` hands out fresh addresses from `brk`.  Whether a request is granted is
not ours to compute: it is an argument (`granted`), and every statement ranges over
all of its values.  A request of zero bytes always yields `zeroSizePtr`.
-/

namespace Lunatik.Kernel

/-- Number of values of a `size_t`. -/
def sizeModulus : Nat := 2 ^ 64

/-- A `size_t` computation. -/
def wrap (n : Nat) : Nat := n % sizeModulus

/-- Errno values, negated where the source returns them. -/
def enomem : Int := 12
def einval : Int := 22
def efault : Int := 14
def eintr : Int := 4

/-- The NULL pointer. -/
def null : Nat := 0

/-- `ZERO_SIZE_PTR`, the answer to a request of zero bytes. -/
def zeroSizePtr : Nat := 16

-- a machine word of `n` bytes in memory order
def littleEndian : Nat → Nat → List UInt8
  | 0, _ => []
  | n + 1, w => UInt8.ofNat w :: littleEndian n (w / 256)

theorem littleEndian_length (n w : Nat) : (littleEndian n w).length = n := by
  induction n generalizing w with
  | zero => rfl
  | succ n ih => simp [littleEndian, ih]

/-- Mapped bytes, the next address the slab hands out, the stale contents of memory not
    yet handed out, and the blocks that are allocated.  The slab lies above the two
    pointers that name no block. -/
structure Memory where
  byte : Nat → Option UInt8
  brk : Nat
  stale : Nat → UInt8
  live : List Nat
  low : zeroSizePtr < brk

namespace Memory

/-- Memory with nothing mapped. -/
def empty : Memory := ⟨fun _ => none, 4096, fun _ => 0, [], by decide⟩

/-- Store `bytes` from address `a` on. -/
def store (mem : Memory) (a : Nat) (bytes : List UInt8) : Memory :=
  { mem with byte := fun x => if a ≤ x ∧ x < a + bytes.length then bytes[x - a]? else mem.byte x }

/-- `kmalloc(size, GFP_KERNEL)`; the block keeps whatever its memory held. -/
def kmalloc (mem : Memory) (size : Nat) (granted : Bool) : Nat × Memory :=
  if size = 0 then (zeroSizePtr, mem)
  else if granted then
    (mem.brk,
      { mem with
        byte := fun x => if mem.brk ≤ x ∧ x < mem.brk + size then some (mem.stale x) else mem.byte x
        brk := mem.brk + size
        live := mem.brk :: mem.live
        low := Nat.lt_add_right size mem.low })
  else (null, mem)

/-- `kfree(p)`: a no-op on NULL and on `ZERO_SIZE_PTR`. -/
def kfree (mem : Memory) (p : Nat) : Memory :=
  if p = null ∨ p = zeroSizePtr then mem else { mem with live := mem.live.erase p }

/-- The mapped bytes among the `n` bytes from `a` on, up to the first hole. -/
def readBytes (mem : Memory) (a : Nat) : Nat → List UInt8
  | 0 => []
  | n + 1 =>
    match mem.byte a with
    | none => []
    | some b => b :: readBytes mem (a + 1) n

/-- Look for a zero byte among the next `fuel` bytes. -/
def strlenWithin (mem : Memory) : Nat → Nat → Option Nat
  | 0, _ => none
  | fuel + 1, a =>
    match mem.byte a with
    | none => none
    | some b => if b = 0 then some 0 else (strlenWithin mem fuel (a + 1)).map (· + 1)

/-- `strlen(p)`; `none` when it runs into unmapped memory. -/
def strlen (mem : Memory) (p : Nat) : Option Nat := mem.strlenWithin sizeModulus p

/-- `p` points to these bytes. -/
def Holds (mem : Memory) (p : Nat) (bytes : List UInt8) : Prop :=
  p ≠ null ∧ ∀ i, i < bytes.length → mem.byte (p + i) = bytes[i]?

/-! ## Allocation and stores -/

/-- A granted request, or a request of no bytes, is answered by a pointer. -/
theorem kmalloc_eq_null_iff (mem : Memory) (size : Nat) (granted : Bool) :
    (mem.kmalloc size granted).1 = null ↔ size ≠ 0 ∧ granted = false := by
  have above := mem.low
  unfold kmalloc
  by_cases empty : size = 0
  · simp [empty, zeroSizePtr, null]
  · cases granted with
    | true =>
      simp only [empty, if_false, if_true, null]
      simp only [zeroSizePtr] at above
      constructor
      · intro collides; omega
      · intro both; simp at both
    | false => simp [empty, null]

theorem kmalloc_ne_null (mem : Memory) (size : Nat) : (mem.kmalloc size true).1 ≠ null := by
  simp [kmalloc_eq_null_iff]

theorem kmalloc_refused (mem : Memory) {size : Nat} (nonempty : size ≠ 0) :
    (mem.kmalloc size false).1 = null := by
  simp [kmalloc_eq_null_iff, nonempty]

theorem store_holds (mem : Memory) {p : Nat} (pointer : p ≠ null) (bytes : List UInt8) :
    (mem.store p bytes).Holds p bytes := by
  refine ⟨pointer, fun i bound => ?_⟩
  simp [store, bound]

theorem Holds.append_left {mem : Memory} {p : Nat} {bytes rest : List UInt8}
    (held : mem.Holds p (bytes ++ rest)) : mem.Holds p bytes := by
  refine ⟨held.1, fun i bound => ?_⟩
  rw [held.2 i (by simp only [List.length_append]; omega), List.getElem?_append_left bound]

/-- A store outside a block leaves the block as it was. -/
theorem Holds.store {mem : Memory} {p : Nat} {bytes : List UInt8} (held : mem.Holds p bytes)
    {q : Nat} {stored : List UInt8} (disjoint : p + bytes.length ≤ q) :
    (mem.store q stored).Holds p bytes := by
  refine ⟨held.1, fun i bound => ?_⟩
  have before : ¬ (q ≤ p + i ∧ p + i < q + stored.length) := by omega
  simp only [Memory.store, before, if_false]
  exact held.2 i bound

/-- An allocation leaves every block below `brk` as it was. -/
theorem Holds.kmalloc {mem : Memory} {p : Nat} {bytes : List UInt8} (held : mem.Holds p bytes)
    (below : p + bytes.length ≤ mem.brk) (size : Nat) (granted : Bool) :
    (mem.kmalloc size granted).2.Holds p bytes := by
  refine ⟨held.1, fun i bound => ?_⟩
  unfold Memory.kmalloc
  split
  · exact held.2 i bound
  · split
    · have before : ¬ (mem.brk ≤ p + i ∧ p + i < mem.brk + size) := by omega
      simp only [before, if_false]
      exact held.2 i bound
    · exact held.2 i bound

/-- A granted block lies at the old `brk` and ends at the new one. -/
theorem kmalloc_granted (mem : Memory) {size : Nat} (nonempty : size ≠ 0) :
    (mem.kmalloc size true).1 = mem.brk ∧ (mem.kmalloc size true).2.brk = mem.brk + size := by
  simp [kmalloc, nonempty]

/-- Every block that was handed out ends at or below the new `brk`. -/
theorem kmalloc_below (mem : Memory) (size : Nat) (granted : Bool)
    (answered : (mem.kmalloc size granted).1 ≠ null) :
    (mem.kmalloc size granted).1 + size ≤ (mem.kmalloc size granted).2.brk := by
  have above := mem.low
  unfold kmalloc at answered ⊢
  by_cases empty : size = 0
  · simp only [empty, if_true]
    omega
  · cases granted with
    | true => simp [empty]
    | false => simp [empty] at answered

theorem readBytes_length_le (mem : Memory) (a n : Nat) : (mem.readBytes a n).length ≤ n := by
  induction n generalizing a with
  | zero => simp [readBytes]
  | succ n ih =>
    simp only [readBytes]
    split
    · simp
    · simpa using ih (a + 1)

/-- A string and its terminator are readable in full. -/
theorem readBytes_length_of_strlenWithin {mem : Memory} {fuel a len n : Nat}
    (found : mem.strlenWithin fuel a = some len) (bound : n ≤ len + 1) :
    (mem.readBytes a n).length = n := by
  induction fuel generalizing a len n with
  | zero => simp [strlenWithin] at found
  | succ fuel ih =>
    cases n with
    | zero => simp [readBytes]
    | succ n =>
      simp only [strlenWithin] at found
      cases held : mem.byte a with
      | none => simp [held] at found
      | some b =>
        simp only [held] at found
        simp only [readBytes, held, List.length_cons, Nat.add_right_cancel_iff]
        split at found
        · have : n = 0 := by simp only [Option.some.injEq] at found; omega
          simp [this, readBytes]
        · obtain ⟨rest, foundRest, rfl⟩ := Option.map_eq_some_iff.mp found
          exact ih foundRest (by omega)

end Memory

end Lunatik.Kernel
