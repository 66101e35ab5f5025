import Lunatik.Lua.Mutator

/-! # What writes to the heap do to references -/

namespace Lunatik.Verified.References

open Lunatik.Lua (setAt setAt_same setAt_other)
open Lunatik.Lua.Gc Lunatik.Lua.Gc.GlobalState

variable (g : GlobalState) {o r : GCObject}

theorem refs_setTable (h : Nat) (t : Table) :
    (g.setTable h t).refs o = if o = .table h then tableRefs t else g.refs o := by
  cases o with
  | table h' =>
    simp only [GlobalState.refs, setTable, setAt, GCObject.table.injEq]
    split <;> rfl
  | _ => simp [GlobalState.refs, setTable, deref]

theorem refs_setClosure (cl : Nat) (c : Closure) :
    (g.setClosure cl c).refs o = if o = .function cl then closureRefs c else g.refs o := by
  cases o with
  | function cl' =>
    simp only [GlobalState.refs, setClosure, setAt, GCObject.function.injEq]
    split <;> rfl
  | _ => simp [GlobalState.refs, setClosure, deref]

theorem refs_setUdata (u : Nat) (ud : Udata) :
    (g.setUdata u ud).refs o =
      if o = .userdata u then (ud.metatable.map .table).toList ++ [.table ud.env] else g.refs o := by
  cases o with
  | userdata u' =>
    simp only [GlobalState.refs, setUdata, setAt, GCObject.userdata.injEq]
    split <;> rfl
  | _ => simp [GlobalState.refs, setUdata, deref]

theorem refs_setProto (f : Nat) (p : Proto) :
    (g.setProto f p).refs o = if o = .proto f then protoRefs p else g.refs o := by
  cases o with
  | proto f' =>
    simp only [GlobalState.refs, setProto, setAt, GCObject.proto.injEq]
    split <;> rfl
  | _ => simp [GlobalState.refs, setProto, deref]

/-- A write to a stack shows through the open upvalues too. -/
theorem refs_setThread (th : Nat) (l : Thread) :
    (g.setThread th l).refs o =
      if o = .thread th then threadRefs l
      else match o with
        | .upval uv =>
          match (g.heap.upvals uv).v with
          | .stack th' slot => (gcvalue (if th' = th then l.stack slot else (g.heap.threads th').stack slot)).toList
          | .own => (gcvalue (g.heap.upvals uv).value).toList
        | _ => g.refs o := by
  cases o with
  | thread th' =>
    simp only [GlobalState.refs, setThread, setAt, GCObject.thread.injEq]
    split <;> rfl
  | upval uv =>
    simp only [GlobalState.refs, setThread, deref, setAt, reduceCtorEq, if_false]
    cases (g.heap.upvals uv).v with
    | own => rfl
    | stack th' slot =>
      simp only
      by_cases here : th' = th <;> simp [here]
  | _ => simp [GlobalState.refs, setThread]

theorem refs_setUpVal (uv : Nat) (u : UpVal) (ne : o ≠ .upval uv) : (g.setUpVal uv u).refs o = g.refs o := by
  cases o with
  | upval uv' =>
    have ne' : uv' ≠ uv := fun same => ne (by rw [same])
    simp only [GlobalState.refs, setUpVal, deref, setAt_other _ _ ne']
  | _ => rfl

variable {g}

theorem mem_tableRefs {t : Table} : r ∈ tableRefs t ↔ (∃ mt ∈ t.metatable, r = .table mt) ∨
    (∃ v ∈ t.array, r ∈ gcvalue v) ∨ ∃ n ∈ t.node, n.val ≠ .nil ∧ (r ∈ gcvalue n.key ∨ r ∈ gcvalue n.val) := by
  simp only [tableRefs, List.mem_append, Option.mem_toList, Option.map_eq_some_iff, List.mem_flatMap, or_assoc]
  refine or_congr ⟨?_, ?_⟩ (or_congr Iff.rfl ⟨?_, ?_⟩)
  · rintro ⟨mt, isMt, rfl⟩
    exact ⟨mt, isMt, rfl⟩
  · rintro ⟨mt, isMt, rfl⟩
    exact ⟨mt, isMt, rfl⟩
  · rintro ⟨n, mem, ref⟩
    unfold nodeRefs at ref
    split at ref
    · cases ref
    next used => exact ⟨n, mem, used, by simpa using ref⟩
  · rintro ⟨n, mem, used, ref⟩
    refine ⟨n, mem, ?_⟩
    unfold nodeRefs
    rw [if_neg used]
    simpa using ref

theorem mem_optionals {mk : Nat → GCObject} {l : List (Option Nat)} :
    r ∈ l.flatMap (fun x => (x.map mk).toList) ↔ ∃ x, some x ∈ l ∧ r = mk x := by
  simp only [List.mem_flatMap, Option.mem_toList, Option.map_eq_some_iff]
  constructor
  · rintro ⟨x, mem, y, rfl, rfl⟩
    exact ⟨y, mem, rfl⟩
  · rintro ⟨x, mem, rfl⟩
    exact ⟨some x, mem, x, rfl, rfl⟩

theorem mem_protoRefs {p : Proto} : r ∈ protoRefs p ↔ (∃ ts, p.source = some ts ∧ r = .string ts) ∨
    (∃ v ∈ p.k, r ∈ gcvalue v) ∨ (∃ ts, some ts ∈ p.upvalues ∧ r = .string ts) ∨
    (∃ f, some f ∈ p.p ∧ r = .proto f) ∨ ∃ ts, some ts ∈ p.locvars ∧ r = .string ts := by
  simp only [protoRefs, nameRefs, List.mem_append, mem_optionals]
  simp only [List.mem_flatMap, Option.mem_toList, Option.map_eq_some_iff, Option.mem_def, or_assoc]
  refine or_congr ⟨?_, ?_⟩ Iff.rfl
  · rintro ⟨ts, isSource, rfl⟩
    exact ⟨ts, isSource, rfl⟩
  · rintro ⟨ts, isSource, rfl⟩
    exact ⟨ts, isSource, rfl⟩

theorem mem_threadRefs {l : Thread} :
    r ∈ threadRefs l ↔ r ∈ gcvalue l.gt ∨ ∃ slot < exposed l, r ∈ gcvalue (l.stack slot) := by
  simp [threadRefs]

/-- The slots that can come to lie below the top. -/
theorem lt_exposed {l : Thread} {slot : Nat} :
    slot < exposed l ↔ slot < l.top ∨ ∃ ci ∈ l.ci, ci.isLua = true ∧ slot < ci.top := by
  unfold exposed
  generalize l.top = n
  induction l.ci generalizing n with
  | nil => simp
  | cons ci cis ih =>
    rw [List.foldl_cons, ih]
    simp only [List.exists_mem_cons_iff]
    by_cases isLua : ci.isLua = true
    · simp only [isLua, if_true, true_and, lt_max_iff, or_assoc]
    · simp [isLua]

/-- A tag method is in its metatable. -/
theorem gfasttm_mem {et : Option Nat} {e : Lua.TMS} {tm : TValue} (found : g.gfasttm et e = some tm)
    (isValue : r ∈ gcvalue tm) : ∃ mt, et = some mt ∧ r ∈ g.refs (.table mt) := by
  unfold gfasttm at found
  cases et with
  | none => cases found
  | some mt =>
    refine ⟨mt, rfl, ?_⟩
    simp only at found
    split at found
    · cases found
    next used =>
      cases found
      unfold luaHGetstr at isValue used
      split at isValue
      next n isFound =>
        rw [isFound] at used
        refine mem_tableRefs.mpr (.inr (.inr ⟨n, List.mem_of_find?_eq_some isFound, used, .inr isValue⟩))
      next => cases isValue

end Lunatik.Verified.References
