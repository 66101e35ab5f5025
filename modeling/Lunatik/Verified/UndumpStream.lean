import Lunatik.Library.Simulation
import Lunatik.Verified.StreamReads

/-! # A precompiled chunk is read as the list of its bytes

`luaU_undump` reads its stream only by `luaZ_read`.  So a load from a `Zio` and a load from
the list of the bytes that the `Zio` still has are in step: they build the same prototype or
fail with the same message.
-/

namespace Lunatik.Verified

open Lunatik.Kernel Lunatik.Lua Lunatik.Library

variable {code : Nat → UInt8} {S : Nat} {first : List (Nat × Nat)}

/-- The stream has delivered what is in front of its offset, and the list is what follows. -/
def InStep (code : Nat → UInt8) (S : Nat) (first : List (Nat × Nat)) (s : LoadState)
    (bytes : List UInt8) : Prop :=
  ∃ c, ZioAt code S first c s.z ∧ s.delivered = slice code 0 c ∧ bytes = slice code c (S - c)

theorem slice_take (code : Nat → UInt8) (c n m : Nat) :
    (slice code c m).take n = slice code c (min n m) := by
  simp only [slice, ← List.map_take, List.take_range]

theorem slice_drop (code : Nat → UInt8) (c n m : Nat) :
    (slice code c m).drop n = slice code (c + min n m) (m - min n m) := by
  by_cases short : n ≤ m
  · have whole := slice_append code c n (m - n)
    rw [Nat.add_sub_cancel' short] at whole
    rw [Nat.min_eq_left short, ← whole]
    exact List.drop_left' (slice_length code c n)
  · have beyond : min n m = m := by omega
    rw [beyond, Nat.sub_self, List.drop_eq_nil_of_le (by rw [slice_length]; omega)]
    rfl

theorem loadBlock_eq {σ : Type} (read : StreamRead σ) (size : Nat) (s : σ) :
    loadBlock read size s =
      if (read s size).2.1 ≠ 0 then .error "unexpected end" (read s size).2.2
      else .ok (read s size).1 (read s size).2.2 := by
  by_cases missing : (read s size).2.1 ≠ 0
  · rw [if_pos missing]
    simp only [loadBlock, bind_run, get_run, set_run, if_pos missing]
    rfl
  · rw [if_neg missing]
    simp only [loadBlock, bind_run, get_run, set_run, if_neg missing]
    rfl

theorem loadBlock_sim (size : Nat) :
    Sim (InStep code S first) (loadBlock zioRead size) (loadBlock listRead size) := by
  rintro s bytes ⟨c, here, delivered, rfl⟩
  obtain ⟨z', read, there⟩ := luaZRead_at here size
  have related : InStep code S first ⟨z', s.delivered ++ slice code c (min size (S - c))⟩
      ((slice code c (S - c)).drop size) := by
    refine ⟨c + min size (S - c), there, ?_, ?_⟩
    · have step := slice_append code 0 c (min size (S - c))
      rw [Nat.zero_add] at step
      rw [delivered, step]
    · rw [slice_drop, Nat.sub_sub]
  have sameMissing : size - (slice code c (S - c)).length = size - min size (S - c) := by
    rw [slice_length]
    omega
  simp only [loadBlock_eq, zioRead, read, listRead, sameMissing, slice_take]
  by_cases missing : size - min size (S - c) ≠ 0
  · simp only [if_pos missing]
    exact ⟨trivial, related⟩
  · simp only [if_neg missing]
    exact ⟨trivial, related⟩

theorem loadChar_sim : Sim (InStep code S first) (loadChar zioRead) (loadChar listRead) :=
  Sim.bind (loadBlock_sim 1) fun _ => Sim.ret _

theorem loadInt_sim : Sim (InStep code S first) (loadInt zioRead) (loadInt listRead) := by
  apply Sim.bind (loadBlock_sim 4)
  intro bytes
  exact Sim.cond (Sim.bind (Sim.raise _) fun _ => Sim.ret _) (Sim.ret _)

theorem loadNumber_sim : Sim (InStep code S first) (loadNumber zioRead) (loadNumber listRead) :=
  Sim.bind (loadBlock_sim 8) fun _ => Sim.ret _

theorem loadString_sim : Sim (InStep code S first) (loadString zioRead) (loadString listRead) := by
  apply Sim.bind (loadBlock_sim 8)
  intro bytes
  exact Sim.cond (Sim.ret _) (Sim.bind (loadBlock_sim _) fun _ => Sim.ret _)

theorem loadWords_sim : Sim (InStep code S first) (loadWords zioRead) (loadWords listRead) := by
  apply Sim.bind loadInt_sim
  intro n
  exact Sim.bind (loadBlock_sim _) fun _ => Sim.ret _

theorem loadConstant_sim : Sim (InStep code S first) (loadConstant zioRead)
    (loadConstant listRead) := by
  apply Sim.bind loadChar_sim
  intro t
  apply Sim.cond (Sim.ret _)
  apply Sim.cond (Sim.bind loadChar_sim fun _ => Sim.ret _)
  apply Sim.cond (Sim.bind loadNumber_sim fun _ => Sim.ret _)
  exact Sim.cond (Sim.bind loadString_sim fun _ => Sim.ret _) (Sim.raise _)

theorem loadLocVar_sim : Sim (InStep code S first) (loadLocVar zioRead) (loadLocVar listRead) := by
  apply Sim.bind loadString_sim
  intro varname
  apply Sim.bind loadInt_sim
  intro startpc
  exact Sim.bind loadInt_sim fun _ => Sim.ret _

theorem loadMany_sim {α : Type} {load : LoadM LoadState α} {load' : LoadM (List UInt8) α}
    (same : Sim (InStep code S first) load load') (n : Nat) :
    Sim (InStep code S first) (loadMany load n) (loadMany load' n) := by
  induction n with
  | zero => exact Sim.ret _
  | succ n ih =>
    apply Sim.bind same
    intro x
    exact Sim.bind ih fun _ => Sim.ret _

theorem loadConstants_sim {loadProto : LoadM LoadState Proto}
    {loadProto' : LoadM (List UInt8) Proto} (same : Sim (InStep code S first) loadProto loadProto')
      :
    Sim (InStep code S first) (loadConstants zioRead loadProto)
      (loadConstants listRead loadProto') := by
  apply Sim.bind loadInt_sim
  intro sizek
  apply Sim.bind (loadMany_sim loadConstant_sim sizek)
  intro k
  apply Sim.bind loadInt_sim
  intro sizep
  exact Sim.bind (loadMany_sim same sizep) fun _ => Sim.ret _

theorem loadDebug_sim : Sim (InStep code S first) (loadDebug zioRead) (loadDebug listRead) := by
  apply Sim.bind loadWords_sim
  intro lineinfo
  apply Sim.bind loadInt_sim
  intro sizelocvars
  apply Sim.bind (loadMany_sim loadLocVar_sim sizelocvars)
  intro locvars
  apply Sim.bind loadInt_sim
  intro sizeupvalues
  exact Sim.bind (loadMany_sim loadString_sim sizeupvalues) fun _ => Sim.ret _

theorem loadFunction_sim (depth : Nat) (parent : Option (List UInt8)) :
    Sim (InStep code S first) (loadFunction zioRead depth parent)
      (loadFunction listRead depth parent) := by
  induction depth generalizing parent with
  | zero => exact Sim.raise _
  | succ depth ih =>
    apply Sim.bind loadString_sim
    intro source
    apply Sim.bind loadInt_sim
    intro linedefined
    apply Sim.bind loadInt_sim
    intro lastlinedefined
    apply Sim.bind loadChar_sim
    intro nups
    apply Sim.bind loadChar_sim
    intro numparams
    apply Sim.bind loadChar_sim
    intro isVararg
    apply Sim.bind loadChar_sim
    intro maxstacksize
    apply Sim.bind loadWords_sim
    intro code
    apply Sim.bind (loadConstants_sim (ih (source.or parent)))
    intro constants
    apply Sim.bind loadDebug_sim
    intro debug
    exact Sim.cond (Sim.ret _) (Sim.raise _)

theorem luaUUndump_sim : Sim (InStep code S first) (luaUUndump zioRead) (luaUUndump listRead) := by
  apply Sim.bind
  · apply Sim.bind (loadBlock_sim 12)
    intro header
    exact Sim.cond (Sim.raise _) (Sim.ret _)
  · intro _
    exact loadFunction_sim _ _

theorem slice_getD (bytes : List UInt8) : slice (bytes.getD · 0) 0 bytes.length = bytes := by
  apply List.ext_getElem
  · simp
  · intro i short inside
    simp [slice, inside]

theorem luaZInit_inStep (code : Nat → UInt8) (S : Nat) :
    InStep code S [] ⟨.luaZInit code S, []⟩ (slice code 0 S) :=
  ⟨0, luaZInit_at code S, rfl, rfl⟩

/-- The bytes of a chunk decide alone what it is loaded to. -/
theorem undumped_eq_some_iff (bytes : List UInt8) (f : Proto) :
    undumped bytes = some f ↔ ∃ rest, luaUUndump listRead bytes = .ok f rest := by
  have start := luaZInit_inStep (bytes.getD · 0) bytes.length
  rw [slice_getD] at start
  rw [← luaUUndump_sim.ok_iff start f]
  simp only [undumped]
  split
  next g s ran =>
    rw [ran]
    simp
  next e s ran =>
    rw [ran]
    simp

-- the bytes are accepted as a function with the property `P`
def Loads (bytes : List UInt8) (P : Proto → Prop) : Prop := ∃ f, undumped bytes = some f ∧ P f

theorem loads_of_ok {bytes rest : List UInt8} {f : Proto}
    (loaded : luaUUndump listRead bytes = .ok f rest) (P : Proto → Prop) : P f ↔ Loads bytes P := by
  have accepted : undumped bytes = some f := (undumped_eq_some_iff bytes f).mpr ⟨rest, loaded⟩
  simp [Loads, accepted]

theorem not_loads_of_error {bytes rest : List UInt8} {why : String}
    (refused : luaUUndump listRead bytes = .error why rest) (P : Proto → Prop) :
    ¬ Loads bytes P := by
  rintro ⟨f, accepted, _⟩
  obtain ⟨left, loaded⟩ := (undumped_eq_some_iff bytes f).mp accepted
  rw [refused] at loaded
  cases loaded

instance (bytes : List UInt8) (P : Proto → Prop) [DecidablePred P] : Decidable (Loads bytes P) :=
  match loaded : luaUUndump listRead bytes with
  | .ok f _ => decidable_of_iff (P f) (loads_of_ok loaded P)
  | .error _ _ => .isFalse (not_loads_of_error loaded P)

end Lunatik.Verified
