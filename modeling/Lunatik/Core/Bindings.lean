import Lunatik.Kernel.Memory
import Lunatik.Library.TransitionSystem

/-! # Bindings and module references (`lunatik.c`)

A binding is known by the address of its `struct lunatik_binding` and is owned by a
module, or by nothing when it is built into the kernel (`THIS_MODULE` is then NULL,
`try_module_get(NULL)` succeeds and `module_put(NULL)` does nothing).  The active list of
a context holds addresses of bindings, one per `struct active_binding`.

`lunatik_bindings_load` meets three things it does not decide: whether the owner can
still be got, what `regfunc` returns, and whether the node is granted.  `LoadOutcome`
fixes them for one binding.
-/

namespace Lunatik.Core

open Lunatik.Kernel Lunatik.Library

structure Binding where
  ptr : Nat
  owner : Option Nat
  deriving DecidableEq, Repr

structure LoadOutcome where
  got : Bool
  regfunc : Int
  granted : Bool
  deriving DecidableEq, Repr

def tryModuleGet (owner : Option Nat) (got : Bool) : Bool := owner.isNone || got

/-- What one `lunatik_bindings_load` does: its return value, the bindings whose owner was
    got, and the bindings that were appended to the active list. -/
structure LoadResult where
  ret : Int
  taken : List Binding
  added : List Nat
  deriving DecidableEq, Repr

def lunatikBindingsLoad (outcome : Nat → LoadOutcome) : List Binding → List Nat → LoadResult
  | [], _ => ⟨0, [], []⟩
  | b :: bs, active =>
    -- skip bindings which are already active
    if b.ptr ∈ active then lunatikBindingsLoad outcome bs active
    else if tryModuleGet b.owner (outcome b.ptr).got then
      if (outcome b.ptr).regfunc ≠ 0 then ⟨(outcome b.ptr).regfunc, [b], []⟩
      else if (outcome b.ptr).granted then
        let rest := lunatikBindingsLoad outcome bs (active ++ [b.ptr])
        ⟨rest.ret, b :: rest.taken, b.ptr :: rest.added⟩
      else ⟨-enomem, [b], []⟩
    else lunatikBindingsLoad outcome bs active

def ownedBy (m : Nat) (bs : List Binding) : Nat := bs.countP (·.owner = some m)

/-! ## Registry, contexts and reference counts -/

structure BoundContext where
  id : Nat
  active : List Nat
  deriving DecidableEq, Repr

/-- `refs m` counts the references on module `m` that were got and not put. -/
structure Registry where
  bindings : List Binding
  contexts : List BoundContext
  refs : Nat → Int

inductive RegistryLabel where
  | register (ptr : Nat) (owner : Option Nat) (granted : Bool)
  | unregister (ptr : Nat)
  | contextCreate (id : Nat) (created : Bool)
  | bindingsLoad (id : Nat) (outcome : Nat → LoadOutcome)
  | contextDestroy (id : Nat)

namespace Registry

-- the owner read through ab->b, for a binding that is still there
def ownerOf (s : Registry) (ptr : Nat) : Option Nat :=
  (s.bindings.find? (·.ptr = ptr)).bind (·.owner)

def find (s : Registry) (id : Nat) : Option BoundContext := s.contexts.find? (·.id = id)

def setActive (s : Registry) (id : Nat) (active : List Nat) : List BoundContext :=
  s.contexts.map fun c => if c.id = id then { c with active } else c

-- list_for_each_entry_safe in lunatik_context_destroy: the references put on `m`
def puts (s : Registry) (m : Nat) (active : List Nat) : Nat :=
  active.countP fun p => s.ownerOf p = some m

def step (s : Registry) : RegistryLabel → Option Registry
  | .register ptr owner granted =>
    -- kmalloc does not hand out the address of a block that is in use
    if ∃ b ∈ s.bindings, b.ptr = ptr then none
    else if granted then some { s with bindings := s.bindings ++ [⟨ptr, owner⟩] }
    else some s
  | .unregister ptr =>
    match s.bindings.find? (·.ptr = ptr) with
    | none => none
    | some b =>
      -- only the exit function of a module calls it, and a module in use is not unloaded
      match b.owner with
      | none => none
      | some m =>
        if s.refs m = 0 then some { s with bindings := s.bindings.filter (·.ptr ≠ ptr) } else none
  | .contextCreate id created =>
    if (s.find id).isSome then none
    else if created then some { s with contexts := s.contexts ++ [⟨id, []⟩] }
    else some s
  | .bindingsLoad id outcome =>
    match s.find id with
    | none => none
    | some c =>
      let result := lunatikBindingsLoad outcome s.bindings c.active
      some { s with
        contexts := s.setActive id (c.active ++ result.added)
        refs := fun m => s.refs m + ownedBy m result.taken }
  | .contextDestroy id =>
    match s.find id with
    | none => none
    | some c =>
      some { s with
        contexts := s.contexts.filter (·.id ≠ id)
        refs := fun m => s.refs m - s.puts m c.active }

end Registry

def registrySystem : System Registry RegistryLabel := ⟨Registry.step⟩

def noBindings : Registry := ⟨[], [], fun _ => 0⟩

end Lunatik.Core
