import Mathlib.Algebra.GroupWithZero.Nat
import Mathlib.Algebra.Order.BigOperators.Group.List
import Mathlib.Algebra.Order.Group.Nat
import Lunatik.Core.Bindings

/-! # Module reference accounting

A reference is got before `regfunc` runs and before the node is allocated, and it is put
only through the active list.  So a load that stops at a binding of a module keeps a
reference that nothing accounts for.  As long as no load does that, the references held
on a module are the active bindings it owns, over whole runs of any number of contexts.
-/

namespace Lunatik.Verified

open Lunatik.Core Lunatik.Library

/-! ## The property and the condition -/

-- (context, active binding) pairs whose binding `m` owns
def activePairs (s : Registry) (m : Nat) : Nat := (s.contexts.map fun c => s.puts m c.active).sum

structure Accounted (s : Registry) : Prop where
  balance : ∀ m, s.refs m = activePairs s m
  nodup : ∀ c ∈ s.contexts, c.active.Nodup
  registered : ∀ c ∈ s.contexts, ∀ p ∈ c.active, ∃ b ∈ s.bindings, b.ptr = p

-- the binding at which a load returns early
def stopsAt (outcome : Nat → LoadOutcome) (bindings : List Binding) (active : List Nat) :
    Option Binding :=
  bindings.find? fun b => b.ptr ∉ active ∧ tryModuleGet b.owner (outcome b.ptr).got ∧
    ((outcome b.ptr).regfunc ≠ 0 ∨ (outcome b.ptr).granted = false)

def NeverStopsAtModule (s : Registry) : RegistryLabel → Prop
  | .bindingsLoad id outcome =>
    ∀ c, s.find id = some c → ∀ b, stopsAt outcome s.bindings c.active = some b → b.owner = none
  | _ => True

/-! ## One load -/

theorem stopsAt_append {outcome : Nat → LoadOutcome} {bindings : List Binding}
    {active : List Nat} {p : Nat} (absent : p ∉ bindings.map (·.ptr)) :
    stopsAt outcome bindings (active ++ [p]) = stopsAt outcome bindings active := by
  induction bindings with
  | nil => rfl
  | cons b bs ih =>
    simp only [List.map_cons, List.mem_cons, not_or] at absent
    have rest := ih absent.2
    simp only [stopsAt] at rest ⊢
    simp only [List.find?_cons, List.mem_append, List.mem_singleton, Ne.symm absent.1, or_false]
    split
    · rfl
    · simpa using rest

/-- A load takes a reference for every binding it activates and for the one it stops at. -/
theorem lunatikBindingsLoad_spec (outcome : Nat → LoadOutcome) {bindings : List Binding}
    (distinct : (bindings.map (·.ptr)).Nodup) (active : List Nat) :
    ∃ kept, kept.Sublist bindings ∧ (∀ b ∈ kept, b.ptr ∉ active) ∧
      (lunatikBindingsLoad outcome bindings active).added = kept.map (·.ptr) ∧
      (lunatikBindingsLoad outcome bindings active).taken =
        kept ++ (stopsAt outcome bindings active).toList := by
  induction bindings generalizing active with
  | nil => exact ⟨[], .slnil, by simp, rfl, rfl⟩
  | cons b bs ih =>
    simp only [List.map_cons, List.nodup_cons] at distinct
    -- a binding that is skipped changes neither the load nor where it stops
    have skip : lunatikBindingsLoad outcome (b :: bs) active =
      lunatikBindingsLoad outcome bs active →
        stopsAt outcome (b :: bs) active = stopsAt outcome bs active →
        ∃ kept, kept.Sublist (b :: bs) ∧ (∀ b ∈ kept, b.ptr ∉ active) ∧
          (lunatikBindingsLoad outcome (b :: bs) active).added = kept.map (·.ptr) ∧
          (lunatikBindingsLoad outcome (b :: bs) active).taken =
            kept ++ (stopsAt outcome (b :: bs) active).toList := by
      intro sameLoad sameStop
      obtain ⟨kept, sub, fresh, added, taken⟩ := ih distinct.2 active
      rw [sameLoad, sameStop]
      exact ⟨kept, sub.cons b, fresh, added, taken⟩
    by_cases already : b.ptr ∈ active
    · exact skip (by simp [lunatikBindingsLoad, already]) (by simp [stopsAt, already])
    by_cases got : tryModuleGet b.owner (outcome b.ptr).got = true
    · by_cases failed : (outcome b.ptr).regfunc ≠ 0 ∨ (outcome b.ptr).granted = false
      · have here : stopsAt outcome (b :: bs) active = some b := by
          unfold stopsAt
          rw [List.find?_cons_of_pos]
          simp [already, got, failed]
        refine ⟨[], List.nil_sublist _, by simp, ?_, ?_⟩
        · by_cases err : (outcome b.ptr).regfunc = 0
          · simp_all [lunatikBindingsLoad]
          · simp [lunatikBindingsLoad, already, got, err]
        · by_cases err : (outcome b.ptr).regfunc = 0
          · simp_all [lunatikBindingsLoad]
          · simp [lunatikBindingsLoad, already, got, err, here]
      · simp only [not_or, not_not, Bool.not_eq_false] at failed
        obtain ⟨kept, sub, fresh, added, taken⟩ := ih distinct.2 (active ++ [b.ptr])
        rw [stopsAt_append distinct.1] at taken
        have sameStop : stopsAt outcome (b :: bs) active = stopsAt outcome bs active := by
          simp [stopsAt, failed]
        refine ⟨b :: kept, sub.cons_cons b, ?_, ?_, ?_⟩
        · intro b' member
          rcases List.mem_cons.mp member with rfl | later
          · exact already
          · exact fun inside => fresh b' later (List.mem_append_left _ inside)
        · simp [lunatikBindingsLoad, already, got, failed, added]
        · simp [lunatikBindingsLoad, already, got, failed, taken, sameStop]
    · exact skip (by simp [lunatikBindingsLoad, already, got]) (by simp [stopsAt, got])

/-! ## Owners of registered bindings -/

theorem ownerOf_registered {s : Registry} (distinct : (s.bindings.map (·.ptr)).Nodup) {b : Binding}
    (member : b ∈ s.bindings) : s.ownerOf b.ptr = b.owner := by
  have found : s.bindings.find? (·.ptr = b.ptr) = some b := by
    generalize s.bindings = bindings at distinct member
    induction bindings with
    | nil => simp at member
    | cons head tail ih =>
      simp only [List.map_cons, List.nodup_cons] at distinct
      rcases List.mem_cons.mp member with rfl | later
      · simp
      · have different : head.ptr ≠ b.ptr := fun same =>
          distinct.1 (same ▸ List.mem_map.mpr ⟨b, later, rfl⟩)
        simpa [different] using ih distinct.2 later
  simp [Registry.ownerOf, found]

theorem puts_append (s : Registry) (m : Nat) (first second : List Nat) :
    s.puts m (first ++ second) = s.puts m first + s.puts m second := by
  simp [Registry.puts]

theorem puts_kept {s : Registry} (distinct : (s.bindings.map (·.ptr)).Nodup) {kept : List Binding}
    (sub : ∀ b ∈ kept, b ∈ s.bindings) (m : Nat) :
    s.puts m (kept.map (·.ptr)) = ownedBy m kept := by
  induction kept with
  | nil => rfl
  | cons b bs ih =>
    have rest := ih fun b' later => sub b' (List.mem_cons_of_mem _ later)
    simp only [Registry.puts, ownedBy] at rest
    simp only [Registry.puts, ownedBy, List.map_cons, List.countP_cons, rest,
      ownerOf_registered distinct (sub b List.mem_cons_self)]

/-! ## Runs -/

structure RegistryInv (s : Registry) : Prop extends Accounted s where
  distinct : (s.bindings.map (·.ptr)).Nodup
  contextIds : (s.contexts.map (·.id)).Nodup

theorem registryInv_noBindings : RegistryInv noBindings := by
  constructor
  · constructor <;> simp [noBindings, activePairs]
  · simp [noBindings]
  · simp [noBindings]

/-- Removing or adding bindings that no context uses leaves the pairs as they are. -/
theorem activePairs_of_bindings {s : Registry} (inv : RegistryInv s) {bindings : List Binding}
    (distinct : (bindings.map (·.ptr)).Nodup)
    (kept : ∀ c ∈ s.contexts, ∀ p ∈ c.active, ∀ b ∈ s.bindings, b.ptr = p → b ∈ bindings)
    (m : Nat) :
    activePairs { s with bindings } m = activePairs s m := by
  unfold activePairs
  congr 1
  apply List.map_congr_left
  intro c member
  apply List.countP_congr
  intro p inside
  obtain ⟨b, registered, rfl⟩ := inv.registered c member p inside
  have before := ownerOf_registered inv.distinct registered
  have after :=
    @ownerOf_registered { s with bindings } distinct b (kept c member _ inside b registered rfl)
  rw [before, after]

theorem activePairs_contexts (s : Registry) (contexts : List BoundContext)
    (refs : Nat → Int) (m : Nat) :
    activePairs { s with contexts, refs } m = (contexts.map fun c => s.puts m c.active).sum := rfl

theorem find_split {s : Registry} (ids : (s.contexts.map (·.id)).Nodup) {id : Nat}
    {c : BoundContext} (found : s.find id = some c) :
    ∃ before after, s.contexts = before ++ c :: after ∧
      (∀ active, s.setActive id active = before ++ { c with active } :: after) ∧
      s.contexts.filter (·.id ≠ id) = before ++ after := by
  obtain ⟨same, before, after, split, earlier⟩ := List.find?_eq_some_iff_append.mp found
  simp only [decide_eq_true_eq] at same
  subst same
  have notBefore : ∀ a ∈ before, a.id ≠ c.id := fun a member => by simpa using earlier a member
  have notAfter : ∀ a ∈ after, a.id ≠ c.id := by
    intro a member same
    rw [split, List.map_append, List.map_cons, List.nodup_append] at ids
    exact (List.nodup_cons.mp ids.2.1).1 (same ▸ List.mem_map.mpr ⟨a, member, rfl⟩)
  refine ⟨before, after, split, fun active => ?_, ?_⟩
  · rw [Registry.setActive, split, List.map_append, List.map_cons, if_pos rfl]
    congr 1
    · exact (List.map_congr_left fun a member => if_neg (notBefore a member)).trans (List.map_id' _)
    · congr 1
      exact (List.map_congr_left fun a member => if_neg (notAfter a member)).trans (List.map_id' _)
  · have keepBefore : before.filter (·.id ≠ c.id) = before :=
      List.filter_eq_self.mpr fun a member => by simpa using notBefore a member
    have keepAfter : after.filter (·.id ≠ c.id) = after :=
      List.filter_eq_self.mpr fun a member => by simpa using notAfter a member
    rw [split, List.filter_append, List.filter_cons_of_neg (by simp), keepBefore, keepAfter]

theorem register_inv {s t : Registry} {ptr : Nat} {owner : Option Nat} {granted : Bool}
    (inv : RegistryInv s) (stepped : s.step (.register ptr owner granted) = some t) :
    RegistryInv t := by
  simp only [Registry.step] at stepped
  split at stepped
  next => cases stepped
  next unused =>
    split at stepped
    next =>
      cases stepped
      have distinct : ((s.bindings ++ [Binding.mk ptr owner]).map Binding.ptr).Nodup := by
        rw [List.map_append, List.nodup_append]
        refine ⟨inv.distinct, by simp, ?_⟩
        intro p member q fresh same
        obtain ⟨b, registered, rfl⟩ := List.mem_map.mp member
        simp only [List.map_cons, List.map_nil, List.mem_singleton] at fresh
        exact unused ⟨b, registered, same.trans fresh⟩
      refine ⟨⟨fun m => ?_, inv.nodup, ?_⟩, distinct, inv.contextIds⟩
      · rw [activePairs_of_bindings inv distinct fun _ _ _ _ b registered _ =>
          List.mem_append_left _ registered]
        exact inv.balance m
      · intro c member p inside
        obtain ⟨b, registered, same⟩ := inv.registered c member p inside
        exact ⟨b, List.mem_append_left _ registered, same⟩
    next =>
      cases stepped
      exact inv

theorem unregister_inv {s t : Registry} {ptr : Nat} (inv : RegistryInv s)
    (stepped : s.step (.unregister ptr) = some t) : RegistryInv t := by
  simp only [Registry.step] at stepped
  split at stepped
  next => cases stepped
  next b found =>
    split at stepped
    next => cases stepped
    next m owner =>
      split at stepped
      next unreferenced =>
        cases stepped
        have registered := List.mem_of_find?_eq_some found
        have same : b.ptr = ptr := by simpa using List.find?_some found
        -- an active binding of `m` would be a reference on `m`
        have unused : ∀ c ∈ s.contexts, ptr ∉ c.active := by
          intro c member inside
          have owned : s.ownerOf ptr = some m := by
            rw [← same, ownerOf_registered inv.distinct registered, owner]
          have one : 0 < s.puts m c.active := List.countP_pos_iff.mpr ⟨ptr, inside, by simp [owned]⟩
          have pairs : s.puts m c.active ≤ activePairs s m :=
            List.le_sum_of_mem (List.mem_map.mpr ⟨c, member, rfl⟩)
          have balance := inv.balance m
          omega
        have distinct : ((s.bindings.filter (·.ptr ≠ ptr)).map Binding.ptr).Nodup :=
          inv.distinct.sublist (List.filter_sublist.map _)
        have kept : ∀ c ∈ s.contexts, ∀ p ∈ c.active, ∀ b ∈ s.bindings, b.ptr = p →
            b ∈ s.bindings.filter (·.ptr ≠ ptr) := by
          rintro c member p inside b registered rfl
          refine List.mem_filter.mpr ⟨registered, ?_⟩
          have other : b.ptr ≠ ptr := fun same => unused c member (same ▸ inside)
          simpa using other
        refine ⟨⟨fun m => ?_, inv.nodup, ?_⟩, distinct, inv.contextIds⟩
        · rw [activePairs_of_bindings inv distinct kept]
          exact inv.balance m
        · intro c member p inside
          obtain ⟨b, registered, same⟩ := inv.registered c member p inside
          exact ⟨b, kept c member p inside b registered same, same⟩
      next => cases stepped

theorem contextCreate_inv {s t : Registry} {id : Nat} {created : Bool} (inv : RegistryInv s)
    (stepped : s.step (.contextCreate id created) = some t) : RegistryInv t := by
  simp only [Registry.step] at stepped
  split at stepped
  next => cases stepped
  next absent =>
    split at stepped
    next =>
      cases stepped
      refine ⟨⟨fun m => ?_, ?_, ?_⟩, inv.distinct, ?_⟩
      · rw [inv.balance m]
        simp [activePairs, Registry.puts]
        rfl
      · simpa [or_imp, forall_and] using inv.nodup
      · simpa [or_imp, forall_and] using inv.registered
      · rw [List.map_append, List.nodup_append]
        refine ⟨inv.contextIds, by simp, ?_⟩
        intro i member j fresh same
        obtain ⟨c, inside, rfl⟩ := List.mem_map.mp member
        simp only [List.map_cons, List.map_nil, List.mem_singleton] at fresh
        apply absent
        rw [Registry.find, List.find?_isSome]
        exact ⟨c, inside, by simpa using same.trans fresh⟩
    next =>
      cases stepped
      exact inv

theorem bindingsLoad_inv {s t : Registry} {id : Nat} {outcome : Nat → LoadOutcome}
    (inv : RegistryInv s) (clean : NeverStopsAtModule s (.bindingsLoad id outcome))
    (stepped : s.step (.bindingsLoad id outcome) = some t) : RegistryInv t := by
  simp only [Registry.step] at stepped
  split at stepped
  next => cases stepped
  next c found =>
    cases stepped
    obtain ⟨before, after, split, setActive, -⟩ := find_split inv.contextIds found
    obtain ⟨kept, sub, fresh, added, taken⟩ :=
      lunatikBindingsLoad_spec outcome inv.distinct c.active
    have member : c ∈ s.contexts := split ▸ List.mem_append_right _ List.mem_cons_self
    have keptRegistered : ∀ b ∈ kept, b ∈ s.bindings := fun b inside => sub.subset inside
    have stopsFree : ∀ m, ownedBy m (stopsAt outcome s.bindings c.active).toList = 0 := by
      intro m
      cases stop : stopsAt outcome s.bindings c.active with
      | none => rfl
      | some b => simp [ownedBy, clean c found b stop]
    refine ⟨⟨fun m => ?_, ?_, ?_⟩, inv.distinct, ?_⟩
    · have balance := inv.balance m
      have gained : s.puts m (kept.map (·.ptr)) = ownedBy m kept :=
        puts_kept inv.distinct keptRegistered m
      have taken' : ownedBy m (kept ++ (stopsAt outcome s.bindings c.active).toList) =
          ownedBy m kept := by
        have := stopsFree m
        simp only [ownedBy, List.countP_append] at this ⊢
        omega
      rw [activePairs_contexts, setActive, added]
      simp only [taken, taken']
      rw [activePairs, split] at balance
      simp only [List.map_append, List.map_cons, List.sum_append, List.sum_cons, puts_append,
        gained] at balance ⊢
      omega
    · intro c' member'
      simp only [setActive, List.mem_append, List.mem_cons] at member'
      rcases member' with early | rfl | late
      · exact inv.nodup c' (split ▸ List.mem_append_left _ early)
      · rw [added, List.nodup_append]
        refine ⟨inv.nodup c member, inv.distinct.sublist (sub.map _), ?_⟩
        intro p old q new same
        obtain ⟨b, inside, rfl⟩ := List.mem_map.mp new
        exact fresh b inside (same ▸ old)
      · exact inv.nodup c' (split ▸ List.mem_append_right _ (List.mem_cons_of_mem _ late))
    · intro c' member' p inside
      simp only [setActive, List.mem_append, List.mem_cons] at member'
      rcases member' with early | rfl | late
      · exact inv.registered c' (split ▸ List.mem_append_left _ early) p inside
      · rw [added] at inside
        rcases List.mem_append.mp inside with old | new
        · exact inv.registered c member p old
        · obtain ⟨b, inKept, rfl⟩ := List.mem_map.mp new
          exact ⟨b, keptRegistered b inKept, rfl⟩
      · exact inv.registered c' (split ▸ List.mem_append_right _
          (List.mem_cons_of_mem _ late)) p inside
    · have ids := inv.contextIds
      rw [split] at ids
      simpa [setActive] using ids

theorem contextDestroy_inv {s t : Registry} {id : Nat} (inv : RegistryInv s)
    (stepped : s.step (.contextDestroy id) = some t) : RegistryInv t := by
  simp only [Registry.step] at stepped
  split at stepped
  next => cases stepped
  next c found =>
    cases stepped
    obtain ⟨before, after, split, -, remaining⟩ := find_split inv.contextIds found
    have still : ∀ c' ∈ s.contexts.filter (·.id ≠ id), c' ∈ s.contexts := fun c' member =>
      (List.mem_filter.mp member).1
    refine ⟨⟨fun m => ?_, fun c' member => inv.nodup c' (still c' member), fun c' member =>
      inv.registered c' (still c' member)⟩, inv.distinct,
        inv.contextIds.sublist (List.filter_sublist.map _)⟩
    have balance := inv.balance m
    rw [activePairs_contexts, remaining]
    rw [activePairs, split] at balance
    simp only [List.map_append, List.map_cons, List.sum_append, List.sum_cons] at balance ⊢
    omega

theorem registryInv_step (s : Registry) (label : RegistryLabel) (t : Registry) (inv : RegistryInv s)
    (clean : NeverStopsAtModule s label) (stepped : registrySystem.step s label = some t) :
    RegistryInv t := by
  cases label with
  | register ptr owner granted => exact register_inv inv stepped
  | unregister ptr => exact unregister_inv inv stepped
  | contextCreate id created => exact contextCreate_inv inv stepped
  | bindingsLoad id outcome => exact bindingsLoad_inv inv clean stepped
  | contextDestroy id => exact contextDestroy_inv inv stepped

/-- In every run in which no load stops at a binding that a module owns, the references held
    on a module are the active bindings it owns, no binding is active twice in a context, and
    every active binding is still registered. -/
theorem references_accounted {labels : List RegistryLabel} {t : Registry}
    (clean : registrySystem.Meets NeverStopsAtModule noBindings labels)
    (reaches : registrySystem.run noBindings labels = some t) : Accounted t :=
  (registrySystem.invariant_of_meets registryInv_step registryInv_noBindings clean reaches).toAccounted

-- a module registers a binding, a context loads it and is destroyed, the module goes
def loadAndUnload : List RegistryLabel :=
  [.register 100 (some 7) true, .contextCreate 1 true, .bindingsLoad 1 fun _ => ⟨true, 0, true⟩,
    .contextDestroy 1, .unregister 100]

theorem loadAndUnload_accounted :
    ∃ t, registrySystem.run noBindings loadAndUnload = some t ∧ Accounted t := by
  obtain ⟨t, reaches⟩ := Option.isSome_iff_exists.mp
    (show (registrySystem.run noBindings loadAndUnload).isSome = true by decide)
  refine ⟨t, reaches, references_accounted ?_ reaches⟩
  refine ⟨trivial, fun s₁ h₁ => ⟨trivial, fun s₂ h₂ =>
    ⟨?_, fun s₃ _ => ⟨trivial, fun s₄ _ => ⟨trivial, fun _ _ => trivial⟩⟩⟩⟩⟩
  cases h₁
  cases h₂
  intro c found b stop
  simp [stopsAt, noBindings] at stop

/-- A failing `regfunc` leaves a reference that no active binding accounts for. -/
theorem failed_regfunc_keeps_reference :
    ∃ t, registrySystem.run noBindings
        [.register 100 (some 7) true, .contextCreate 1 true, .bindingsLoad 1 fun _ =>
          ⟨true, -1, true⟩] =
        some t ∧ ¬ Accounted t := by
  refine ⟨_, rfl, fun accounted => ?_⟩
  have balance := accounted.balance 7
  revert balance
  decide

end Lunatik.Verified
