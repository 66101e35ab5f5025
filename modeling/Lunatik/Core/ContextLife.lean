import Lunatik.Core.Bindings
import Lunatik.Library.Ledger

/-! # The life of one context (`lunatik.c`)

From `lunatik_context_create` over any sequence of `lunatik_bindings_load`,
`lunatik_openlib` and loadcode calls to `lunatik_context_destroy`, with every resource
that is acquired or released on behalf of the context entered in a ledger.  Nodes, works
and `struct loadcode_data` are numbered in the order of their allocation.

`lunatik_work_create` answers a refused `kmalloc` with an error pointer that its callers
take for a work item, so such a call does not come back and its label is not enabled.
-/

namespace Lunatik.Core

open Lunatik.Kernel Lunatik.Library

inductive Resource where
  | context
  | luaState
  | workqueue
  | node (n : Nat)
  | work (n : Nat)
  | data (n : Nat)
  | moduleRef (m : Nat)
  deriving DecidableEq, Repr

structure ContextLife where
  log : List (Entry Resource)
  active : List Binding
  nodes : Nat
  works : Nat
  datas : Nat

/-! ## Creation -/

structure CreateAllocs where
  kzalloc : Bool
  luaOpen : Bool
  workqueue : Bool
  deriving DecidableEq, Repr

/-- `lunatik_context_create(name)`: the ledger, and whether a context is returned. -/
def lunatikContextCreate (allocs : CreateAllocs) : List (Entry Resource) × Bool :=
  if allocs.kzalloc then
    if allocs.luaOpen then
      if allocs.workqueue then ([.acquire .context, .acquire .luaState, .acquire .workqueue], true)
      -- goto out_error, past out_free
      else ([.acquire .context, .acquire .luaState], false)
    else ([.acquire .context, .release .context], false)
  else ([], false)

def createdContext : ContextLife :=
  ⟨[.acquire .context, .acquire .luaState, .acquire .workqueue], [], 0, 0, 0⟩

/-! ## Use -/

inductive LoadcodeVariant where
  | direct
  | sync
  | loadcode (presult : Bool)
  | async
  | asyncNores
  deriving DecidableEq, Repr

inductive ContextOp where
  | bindingsLoad (bindings : List Binding) (outcome : Nat → LoadOutcome)
  | openlib (granted : Bool)
  | loadcode (variant : LoadcodeVariant) (dGranted lwGranted : Bool)

def moduleRefs (bs : List Binding) : List Nat := bs.filterMap (·.owner)

def nodeNumbers (from_ count : Nat) : List Nat := (List.range count).map (from_ + ·)

/-- The entries of one completed loadcode call.  A synchronous caller frees `lw` and then
    `d`; the cleanup callbacks of the other variants free `d` first. -/
def loadcodeEntries (variant : LoadcodeVariant) (d lw : Nat) : List (Entry Resource) :=
  match variant with
  | .direct => [.acquire (.data d), .release (.data d)]
  | .sync | .loadcode true =>
    [.acquire (.data d), .acquire (.work lw), .release (.work lw), .release (.data d)]
  | .loadcode false | .async | .asyncNores =>
    [.acquire (.data d), .acquire (.work lw), .release (.data d), .release (.work lw)]

def LoadcodeVariant.usesWork : LoadcodeVariant → Bool
  | .direct => false
  | _ => true

namespace ContextLife

def bindingsLoad (s : ContextLife) (bindings : List Binding) (outcome : Nat → LoadOutcome) :
    ContextLife :=
  let result := lunatikBindingsLoad outcome bindings (s.active.map (·.ptr))
  { s with
    log := s.log ++ (moduleRefs result.taken).map (.acquire <| .moduleRef ·) ++
      (nodeNumbers s.nodes result.added.length).map (.acquire <| .node ·)
    active := s.active ++ bindings.filter (·.ptr ∈ result.added)
    nodes := s.nodes + result.added.length }

def step (s : ContextLife) : ContextOp → Option ContextLife
  | .bindingsLoad bindings outcome => some (s.bindingsLoad bindings outcome)
  | .openlib granted =>
    -- openlib_work_handler does not free its work
    if granted then some { s with log := s.log ++ [.acquire (.work s.works)], works := s.works + 1 }
    else none
  | .loadcode variant dGranted lwGranted =>
    if dGranted then
      if variant.usesWork && !lwGranted then none
      else some { s with
        log := s.log ++ loadcodeEntries variant s.datas s.works
        works := s.works + variant.usesWork.toNat
        datas := s.datas + 1 }
    else some s

/-- `lunatik_context_destroy(lc)`: the nodes are taken off the list but not freed, and
    the workqueue is left alone. -/
def lunatikContextDestroy (s : ContextLife) : List (Entry Resource) :=
  (moduleRefs s.active).map (.release <| .moduleRef ·) ++ [.release .luaState, .release .context]

end ContextLife

def contextLifeSystem : System ContextLife ContextOp := ⟨ContextLife.step⟩

/-- A whole life; `none` when one of the operations does not come back. -/
def contextLife (allocs : CreateAllocs) (ops : List ContextOp) : Option (List (Entry Resource)) :=
  match lunatikContextCreate allocs with
  | (log, false) => some log
  | (_, true) =>
    (contextLifeSystem.run createdContext ops).map fun s => s.log ++ s.lunatikContextDestroy

end Lunatik.Core
