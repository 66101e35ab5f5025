import Lunatik.Verified.BufferCalls

/-! # `buffer.new` makes a buffer

The metatable of buffers is made by the first call and found in the registry by the later ones; each
call stores the four functions in it again.
-/

namespace Lunatik.Verified

open Lunatik.Lua Lunatik.Core Lunatik.Library

variable {getn : Table → Nat} {registry : Nat} {s : LuaState} {u : Nat}

-- the fields under different names are different fields
theorem names_ne : [TMS.call.name, TMS.len.name, TMS.newindex.name, TMS.index.name].Pairwise
    (fun a b => literal a ≠ literal b) := by decide +kernel

/-! ## Fields of plain tables -/

-- a field stored by `lua_setfield`
def setField (t : Table) (k : String) (v : TValue) : Table :=
  luaHPut { t with flags := 0 } (.string (literal k)) v

@[simp] theorem setField_metatable (t : Table) (k : String) (v : TValue) :
    (setField t k v).metatable = t.metatable := rfl

theorem setField_same (t : Table) (k : String) (v : TValue) :
    luaHGet (setField t k v) (.string (literal k)) = v :=
  luaHGet_put_same _ _ _

theorem setField_other (t : Table) {k k' : String} (other : literal k' ≠ literal k) (v : TValue) :
    luaHGet (setField t k v) (.string (literal k')) = luaHGet t (.string (literal k')) := by
  rw [setField, luaHGet_put_other _ (by simpa using other)]
  rfl

/-- `lua_setfield` on a table without a metatable. -/
theorem vmSetfield_run {h : Nat} (plain : (s.heap.tables h).metatable = none) (k : String) :
    vmSetfield (.table h) k s =
      .ok ⟨⟩
        { s with
          heap := withTable s.heap h (setField (s.heap.tables h) k (s.stack (s.top - 1)))
          top := s.top - 1 } := by
  obtain ⟨key, keyEq⟩ : ∃ key, key = TValue.string (literal k) := ⟨_, rfl⟩
  obtain ⟨v, vEq⟩ : ∃ v, v = s.stack (s.top - 1) := ⟨_, rfl⟩
  obtain ⟨t, tEq⟩ : ∃ t : LuaState, t =
    { s with heap := withTable s.heap h { s.heap.tables h with flags := 0 } } := ⟨_, rfl⟩
  have isTable : hvalue (.table h) s = .ok h s := rfl
  have searched : luaHSet h key s = .ok ⟨⟩ t := by
    have some : ¬ (luaHGet (s.heap.tables h) key = .nil ∧ key = .nil) := by
      rw [keyEq]
      intro both
      cases both.2
    rw [luaHSet, bind_ok (get_run s), bind_ok (setHeap_run _ s), if_neg some, tEq]
    rfl
  have put : putTable h key v t =
      .ok ⟨⟩ { s with heap := withTable s.heap h (setField (s.heap.tables h) k v) } := by
    have stored : withTable t.heap h (luaHPut (t.heap.tables h) key v) =
        withTable s.heap h (setField (s.heap.tables h) k v) := by
      rw [tEq]
      dsimp only
      rw [withTable_tables_same, withTable_twice, keyEq, setField]
    rw [putTable, bind_ok (get_run t), setHeap_run, ← stored, tEq]
    rfl
  have fast : vmFasttm none .newindex t = .ok none t := rfl
  have set : luaVSettable key v maxtagloop (.table h) s =
      .ok ⟨⟩ { s with heap := withTable s.heap h (setField (s.heap.tables h) k v) } := by
    have loop : maxtagloop = 99 + 1 := rfl
    rw [loop, luaVSettable, bind_ok isTable, bind_ok (get_run s), bind_ok searched]
    split
    next => exact put
    next =>
      rw [plain, bind_ok fast]
      exact put
  rw [vmSetfield, bind_ok (belowTop_run 1 s), ← keyEq, ← vEq, bind_ok set]
  rfl

/-! ## The metatable -/

/-- The table `mt` has the C function `f` under an event. -/
def HasMethod (h : Heap) (mt : Nat) (event : TMS) (f : Nat) : Prop :=
  ∃ id upvalues env, id < h.nextClosure ∧ metamethod h mt event = .function id ∧
    h.closures id = .c f upvalues env

theorem HasMethod.native {h : Heap} {mt f : Nat} {event : TMS} (has : HasMethod h mt event f) :
    CFunctionAt h (metamethod h mt event) f := by
  obtain ⟨id, upvalues, env, -, value, closure⟩ := has
  exact ⟨id, upvalues, env, value, closure⟩

-- the heap after setMetamethod
def withMethod (h : Heap) (mt : Nat) (event : TMS) (f : Nat) : Heap :=
  withTable (h.addClosure (.c f [] 0)) mt (setField (h.tables mt) event.name
    (.function h.nextClosure))

theorem withMethod_same (h : Heap) (mt : Nat) (event : TMS) (f : Nat) :
    HasMethod (withMethod h mt event f) mt event f := by
  refine ⟨h.nextClosure, [], 0, Nat.lt_succ_self _, ?_, setAt_same _ _ _⟩
  rw [metamethod, withMethod, withTable_tables_same, setField_same]

theorem HasMethod.other {h : Heap} {mt f f' : Nat} {event event' : TMS}
    (has : HasMethod h mt event' f') (other : literal event'.name ≠ literal event.name) :
    HasMethod (withMethod h mt event f) mt event' f' := by
  obtain ⟨id, upvalues, env, old, value, closure⟩ := has
  refine ⟨id, upvalues, env, Nat.lt_succ_of_lt old, ?_, ?_⟩
  · rw [metamethod, withMethod, withTable_tables_same, setField_other _ other]
    exact value
  · rw [withMethod, withTable_closures, Heap.addClosure_closures, setAt_other _ _ (by omega)]
    exact closure

theorem withMethod_metatable (h : Heap) (mt : Nat) (event : TMS) (f : Nat) :
    ((withMethod h mt event f).tables mt).metatable = (h.tables mt).metatable := by
  rw [withMethod, withTable_tables_same, setField_metatable]

theorem withMethod_tables_other (h : Heap) {mt j : Nat} (other : j ≠ mt) (event : TMS) (f : Nat) :
    (withMethod h mt event f).tables j = h.tables j := by
  rw [withMethod, withTable_tables_other _ other]
  rfl

@[simp] theorem withMethod_udata (h : Heap) (mt : Nat) (event : TMS) (f : Nat) :
    (withMethod h mt event f).udata = h.udata := rfl

-- the heap after the four calls of setMetamethod
def withMethods (h : Heap) (mt : Nat) : Heap :=
  withMethod (withMethod (withMethod (withMethod h mt .call addrBufCall) mt .len addrBufLength) mt .newindex
    addrBufNewindex) mt .index addrBufIndex

theorem withMethods_meta {h : Heap} {mt : Nat} (other : registry ≠ mt)
    (registered : luaHGet (h.tables registry) (.string (literal "buffer")) = .table mt) :
    BufferMeta registry (withMethods h mt) mt := by
  obtain ⟨⟨call_len, call_newindex, call_index⟩, ⟨len_newindex, len_index⟩, newindex_index⟩ :
      (literal TMS.call.name ≠ literal TMS.len.name ∧
        literal TMS.call.name ≠ literal TMS.newindex.name ∧
        literal TMS.call.name ≠ literal TMS.index.name) ∧
      (literal TMS.len.name ≠ literal TMS.newindex.name ∧
        literal TMS.len.name ≠ literal TMS.index.name) ∧
      literal TMS.newindex.name ≠ literal TMS.index.name := by
    simpa using names_ne
  exact
    { registered := by
        rw [withMethods, withMethod_tables_other _ other, withMethod_tables_other _ other,
          withMethod_tables_other _ other, withMethod_tables_other _ other, registered]
      call := (((withMethod_same _ _ _ _).other call_len).other call_newindex |>.other call_index).native
      len := ((withMethod_same _ _ _ _).other len_newindex |>.other len_index).native
      newindex := ((withMethod_same _ _ _ _).other newindex_index).native
      index := (withMethod_same _ _ _ _).native }

theorem setMetamethod_run {mt : Nat} (table : s.stack (s.top - 1) = .table mt)
    (nonempty : 1 ≤ s.top) (plain : (s.heap.tables mt).metatable = none) (event : TMS) (f : Nat) :
    setMetamethod event f s =
      .ok ⟨⟩
        { s with
          stack := setAt s.stack s.top (.function s.heap.nextClosure)
          heap := withMethod s.heap mt event f } := by
  obtain ⟨p, pEq⟩ : ∃ p,
    p = pushed { s with heap := s.heap.addClosure (.c f [] 0) } (.function s.heap.nextClosure) :=
    ⟨_, rfl⟩
  have made : vmPushcfunction f s = .ok ⟨⟩ p := by
    rw [pEq]
    rfl
  have below : p.stack (p.top - 2) = .table mt := by
    rw [pEq, pushed_top, ← table]
    exact pushed_stack_below _ _ (by dsimp only; omega)
  have first : p.stack (p.top - 1) = .function s.heap.nextClosure := by
    rw [pEq, pushed_top, Nat.add_sub_cancel, pushed_stack_top]
  have plain' : (p.heap.tables mt).metatable = none := by
    rw [pEq]
    exact plain
  rw [setMetamethod, bind_ok made, bind_ok (belowTop_run 2 p), below, vmSetfield_run plain', first,
    pEq]
  rfl

/-! ## The call -/

/-- The registry as the library leaves it: under "buffer" is nothing, or the metatable. -/
structure BufferRegistry (registry : Nat) (h : Heap) : Prop where
  plain : (h.tables registry).metatable = none
  old : registry < h.nextTable
  entry : luaHGet (h.tables registry) (.string (literal "buffer")) = .nil ∨
    ∃ mt, luaHGet (h.tables registry) (.string (literal "buffer")) = .table mt ∧ registry ≠ mt ∧
      (h.tables mt).metatable = none

theorem vmGetfield_absent {h : Nat} {k : String} (plain : (s.heap.tables h).metatable = none)
    (absent : luaHGet (s.heap.tables h) (.string (literal k)) = .nil) :
    vmGetfield (.table h) k s = .ok ⟨⟩ (pushed s .nil) := by
  obtain ⟨t, tEq⟩ : ∃ t : LuaState, t = { s with stack := setAt s.stack s.top .nil } := ⟨_, rfl⟩
  have fast : vmFasttm none .index s = .ok none s := rfl
  have isTable : hvalue (.table h) s = .ok h s := rfl
  have get : luaVGettable (.string (literal k)) s.top maxtagloop (.table h) s = .ok ⟨⟩ t := by
    have loop : maxtagloop = 99 + 1 := rfl
    rw [loop, luaVGettable, bind_ok (get_run s), bind_ok isTable, absent]
    dsimp only
    rw [if_neg (not_not_intro rfl), plain, bind_ok fast, tEq]
    rfl
  rw [vmGetfield, bind_ok (get_run s), bind_ok get, tEq]
  rfl

/-- `luaL_newmetatable` leaves a table at the top that is registered. -/
theorem luaLNewmetatable_run (reg : BufferRegistry registry s.heap) :
    ∃ stack h mt, SameBelow s.top s.stack stack ∧ stack s.top = .table mt ∧
      h.udata = s.heap.udata ∧ registry ≠ mt ∧
      (h.tables mt).metatable = none ∧ luaHGet (h.tables registry)
        (.string (literal "buffer")) = .table mt ∧
      luaLNewmetatable registry "buffer" s = .ok ⟨⟩
        { s with stack, heap := h, top := s.top + 1 } := by
  cases reg.entry with
  | inr made =>
    obtain ⟨mt, entry, other, plain⟩ := made
    have found : luaHGet (s.heap.tables registry) (.string (literal "buffer")) ≠ .nil := by
      rw [entry]
      intro nil
      cases nil
    have first : (pushed s (.table mt)).stack ((pushed s (.table mt)).top - 1) ≠ .nil := by
      rw [pushed_top, Nat.add_sub_cancel, pushed_stack_top]
      intro nil
      cases nil
    refine ⟨(pushed s (.table mt)).stack, s.heap, mt, fun j low => pushed_stack_below s _ low,
      pushed_stack_top _ _, rfl, other, plain, entry, ?_⟩
    rw [luaLNewmetatable, bind_ok (vmGetfield_found found), entry, bind_ok (belowTop_run 1 _),
      if_neg first]
    rfl
  | inl absent =>
    obtain ⟨mt, mtEq⟩ : ∃ mt, mt = s.heap.nextTable := ⟨_, rfl⟩
    obtain ⟨name, nameEq⟩ : ∃ name, name = TValue.string (literal "buffer") := ⟨_, rfl⟩
    obtain ⟨a, aEq⟩ : ∃ a, a = pushed s .nil := ⟨_, rfl⟩
    obtain ⟨b, bEq⟩ : ∃ b : LuaState, b = { a with top := a.top - 1 } := ⟨_, rfl⟩
    obtain ⟨c, cEq⟩ : ∃ c,
      c = pushed { b with heap := withNewTable b.heap } (.table b.heap.nextTable) := ⟨_, rfl⟩
    obtain ⟨d, dEq⟩ : ∃ d, d = pushed c name := ⟨_, rfl⟩
    obtain ⟨e, eEq⟩ : ∃ e : LuaState, e =
      { d with
        heap := withTable d.heap mt (setField (d.heap.tables mt) "__name" (d.stack (d.top - 1)))
        top := d.top - 1 } := ⟨_, rfl⟩
    obtain ⟨f, fEq⟩ : ∃ f, f = pushed e (.table mt) := ⟨_, rfl⟩
    have other : registry ≠ mt := by
      rw [mtEq]
      exact Nat.ne_of_lt reg.old
    have nil : a.stack (a.top - 1) = .nil := by
      rw [aEq, pushed_top, Nat.add_sub_cancel, pushed_stack_top]
    have btop : b.top = s.top := by
      rw [bEq, aEq]
      rfl
    have bheap : b.heap = s.heap := by
      rw [bEq, aEq]
      rfl
    have cheap : c.heap = withNewTable s.heap := by rw [cEq, pushed_heap, bheap]
    have ctop : c.top = s.top + 1 := by
      rw [cEq, pushed_top]
      exact congrArg (· + 1) btop
    have table : c.stack s.top = .table mt := by
      rw [cEq, mtEq, ← bheap, ← btop]
      exact pushed_stack_top _ _
    have dtop : d.top = s.top + 2 := by rw [dEq, pushed_top, ctop]
    have second : d.stack (d.top - 2) = .table mt := by
      rw [dtop, dEq, Nat.add_sub_cancel, pushed_stack_below _ _ (by omega), table]
    have dplain : (d.heap.tables mt).metatable = none := by
      rw [dEq, pushed_heap, cheap, mtEq, withNewTable]
      dsimp only
      rw [setAt_same, newTable_metatable]
    have etop : e.top = s.top + 1 := by
      rw [eEq]
      exact (by omega : d.top - 1 = s.top + 1)
    have first : e.stack (e.top - 1) = .table mt := by
      rw [etop, eEq, ← second, dtop]
      rfl
    have eregistry : e.heap.tables registry = s.heap.tables registry := by
      rw [eEq, dEq]
      dsimp only
      rw [withTable_tables_other _ other, pushed_heap, cheap, withNewTable]
      exact setAt_other _ _ (by omega)
    have fplain : (f.heap.tables registry).metatable = none := by
      rw [fEq, pushed_heap, eregistry, reg.plain]
    have ftop : f.top = s.top + 2 := by rw [fEq, pushed_top, etop]
    have last : f.stack (f.top - 1) = .table mt := by
      rw [fEq, pushed_top, Nat.add_sub_cancel, pushed_stack_top]
    obtain ⟨h, hEq⟩ : ∃ h,
      h = withTable f.heap registry (setField (f.heap.tables registry) "buffer" (.table mt)) :=
      ⟨_, rfl⟩
    have mtTable : h.tables mt = setField newTable "__name" (d.stack (d.top - 1)) := by
      have fresh : d.heap.tables mt = newTable := by
        rw [dEq, pushed_heap, cheap, mtEq]
        exact setAt_same _ _ _
      rw [hEq, withTable_tables_other _ other.symm, fEq, pushed_heap, eEq]
      dsimp only
      rw [withTable_tables_same, fresh]
    refine ⟨f.stack, h, mt, ?_, ?_, ?_, other, by rw [mtTable, setField_metatable, newTable_metatable],
      ?_, ?_⟩
    · intro j low
      rw [fEq, pushed_stack_below _ _ (by omega), eEq]
      dsimp only
      rw [dEq, pushed_stack_below _ _ (by omega), cEq,
        pushed_stack_below _ _ (by dsimp only; omega), bEq, aEq]
      exact pushed_stack_below _ _ low
    · rw [fEq, pushed_stack_below _ _ (by omega), ← first, etop]
      rfl
    · rw [hEq, withTable_udata, fEq, pushed_heap, eEq]
      dsimp only
      rw [withTable_udata, dEq, pushed_heap, cheap]
      rfl
    · rw [hEq, withTable_tables_same, setField_same]
    · have created : vmCreatetable 0 b = .ok ⟨⟩ c := by rw [vmCreatetable_run (by decide), cEq]
      rw [luaLNewmetatable, bind_ok (vmGetfield_absent reg.plain absent), ← aEq,
        bind_ok (belowTop_run 1 a), if_pos nil, bind_ok (vmPop_run 1 a), ← bEq, bind_ok created,
        ← nameEq, bind_ok (push_run name c), ← dEq,
        bind_ok (belowTop_run 2 d), second, bind_ok (vmSetfield_run dplain "__name"), ← eEq,
        bind_ok (belowTop_run 1 e),
        first, bind_ok (push_run _ e), ← fEq, vmSetfield_run fplain, last, ← hEq, ftop, fEq, eEq,
        dEq, cEq, bEq, aEq]
      rfl

theorem vmSetmetatable_run {mt : Nat} (first : s.stack (s.top - 1) = .table mt)
    (second : s.stack (s.top - 2) = .userdata u) :
    vmSetmetatable s =
      .ok ⟨⟩
        { s with
          heap := { s.heap with udata := setAt s.heap.udata u { s.heap.udata u with metatable := some mt } }
          top := s.top - 1 } := by
  have isTable : hvalue (.table mt) s = .ok mt s := rfl
  rw [vmSetmetatable, bind_ok (belowTop_run 1 s), first, bind_ok isTable,
    bind_ok (belowTop_run 2 s), second]
  rfl

/-- The four calls of setMetamethod on the table at the top. -/
theorem setMethods_run {mt : Nat} (table : s.stack (s.top - 1) = .table mt) (nonempty : 1 ≤ s.top)
    (plain : (s.heap.tables mt).metatable = none) (rest : VmM Nat) :
    ∃ stack, SameBelow s.top s.stack stack ∧
      (do
        setMetamethod .call addrBufCall
        setMetamethod .len addrBufLength
        setMetamethod .newindex addrBufNewindex
        setMetamethod .index addrBufIndex
        rest : VmM Nat) s = rest { s with stack, heap := withMethods s.heap mt } := by
  have step : ∀ (t : LuaState) (event : TMS) (f : Nat), t.top = s.top →
    SameBelow s.top s.stack t.stack →
      (t.heap.tables mt).metatable = none →
      ∃ t' : LuaState, setMetamethod event f t = .ok ⟨⟩ t' ∧
        t' = { t with stack := t'.stack, heap := t'.heap } ∧
        SameBelow s.top s.stack t'.stack ∧ t'.heap = withMethod t.heap mt event f ∧
        (t'.heap.tables mt).metatable = none := by
    intro t event f top same plain'
    have table' : t.stack (t.top - 1) = .table mt := by rw [top, same _ (by omega), table]
    refine ⟨_, setMetamethod_run table' (by omega) plain' event f, rfl, ?_, rfl, ?_⟩
    · exact same.trans (.setAt (by omega) _)
    · dsimp only
      rw [withMethod_metatable, plain']
  obtain ⟨a, setCall, aEq, asame, aheap, aplain⟩ := step s .call addrBufCall rfl .refl plain
  obtain ⟨b, setLen, bEq, bsame, bheap, bplain⟩ :=
    step a .len addrBufLength (by rw [aEq]) asame aplain
  obtain ⟨c, setNewindex, cEq, csame, cheap, cplain⟩ :=
    step b .newindex addrBufNewindex (by rw [bEq, aEq]) bsame bplain
  obtain ⟨d, setIndex, dEq, dsame, dheap, -⟩ :=
    step c .index addrBufIndex (by rw [cEq, bEq, aEq]) csame cplain
  refine ⟨d.stack, dsame, ?_⟩
  have heap : d.heap = withMethods s.heap mt := by rw [dheap, cheap, bheap, aheap, withMethods]
  rw [bind_ok setCall, bind_ok setLen, bind_ok setNewindex, bind_ok setIndex, ← heap, dEq,
    cEq, bEq, aEq]

/-- `buffer.new(size)` makes a buffer of that length. -/
theorem lunatikBufNew_run {size : LuaNumber} (arg : luaVTonumber (s.stack (s.top - 1)) = some size)
    (nonempty : 1 ≤ s.top) (reg : BufferRegistry registry s.heap) (u : Nat) (stale : Nat → UInt8) :
    ∃ t, lunatikBufNew registry u stale s = .ok 1 t ∧ t.top = s.top ∧
      SameBelow (s.top - 1) s.stack t.stack ∧
      t.stack (t.top - 1) = .userdata u ∧ IsBuffer registry t.heap u ∧
      (t.heap.udata u).bytes = (List.range size.toNat).map stale := by
  obtain ⟨block, blockEq⟩ : ∃ block, block = Udata.mk ((List.range size.toNat).map stale) none :=
    ⟨_, rfl⟩
  have checked : luaLCheckinteger 1 s = .ok size s := by rw [luaLCheckinteger_run, arg]
  obtain ⟨a, aEq⟩ : ∃ a : LuaState, a = { s with top := s.top - 1 } := ⟨_, rfl⟩
  obtain ⟨b, bEq⟩ : ∃ b : LuaState,
    b = { a with heap := { a.heap with udata := setAt a.heap.udata u block } } :=
    ⟨_, rfl⟩
  obtain ⟨c, cEq⟩ : ∃ c, c = pushed b (.userdata u) := ⟨_, rfl⟩
  have btop : b.top = s.top - 1 := by rw [bEq, aEq]
  have ctop : c.top = s.top := by
    rw [cEq, pushed_top, btop]
    omega
  have below : SameBelow (s.top - 1) s.stack c.stack := by
    intro j low
    rw [cEq, pushed_stack_below _ _ (by omega), bEq, aEq]
  have data : c.stack (s.top - 1) = .userdata u := by
    rw [cEq, ← btop]
    exact pushed_stack_top _ _
  have reg' : BufferRegistry registry c.heap := by
    have same : c.heap.tables = s.heap.tables ∧ c.heap.nextTable = s.heap.nextTable := by
      rw [cEq, pushed_heap, bEq, aEq]
      exact ⟨rfl, rfl⟩
    exact ⟨by rw [same.1]; exact reg.plain, by rw [same.2]; exact reg.old,
      by rw [same.1]; exact reg.entry⟩
  have cudata : c.heap.udata u = block := by
    rw [cEq, pushed_heap, bEq]
    exact setAt_same _ _ _
  obtain ⟨stack, h, mt, same, table, udata, other, plain, registered, ran⟩ :=
    luaLNewmetatable_run reg'
  obtain ⟨d, dEq⟩ : ∃ d : LuaState, d = { c with stack, heap := h, top := c.top + 1 } := ⟨_, rfl⟩
  rw [← dEq] at ran
  have dtop : d.top = s.top + 1 := by
    rw [dEq]
    exact congrArg (· + 1) ctop
  have dtable : d.stack (d.top - 1) = .table mt := by
    rw [dtop, Nat.add_sub_cancel, dEq, ← ctop]
    exact table
  obtain ⟨stack', same', ran'⟩ := setMethods_run dtable (by omega) (by rw [dEq]; exact plain)
    (do vmSetmetatable; return 1)
  obtain ⟨e, eEq⟩ : ∃ e : LuaState,
    e = { d with stack := stack', heap := withMethods d.heap mt } := ⟨_, rfl⟩
  rw [← eEq] at ran'
  have etop : e.top = s.top + 1 := by
    rw [eEq]
    exact dtop
  have first : e.stack (e.top - 1) = .table mt := by
    rw [etop, eEq, ← dtable, ← dtop]
    exact same' _ (by omega)
  have second : e.stack (e.top - 2) = .userdata u := by
    rw [etop, show s.top + 1 - 2 = s.top - 1 by omega, eEq, ← data]
    dsimp only
    rw [same' _ (by omega), dEq]
    exact same _ (by omega)
  have eudata : e.heap.udata u = block := by
    rw [eEq, dEq]
    dsimp only
    rw [withMethods, withMethod_udata, withMethod_udata, withMethod_udata, withMethod_udata,
      udata, cudata]
  obtain ⟨f, fEq⟩ : ∃ f : LuaState, f =
    { e with
      heap := { e.heap with udata := setAt e.heap.udata u { e.heap.udata u with metatable := some mt } }
      top := e.top - 1 } := ⟨_, rfl⟩
  have ftop : f.top = s.top := by
    rw [fEq]
    exact (by omega : e.top - 1 = s.top)
  have fsame : SameBelow s.top c.stack f.stack := by
    intro j low
    rw [fEq, eEq]
    dsimp only
    rw [same' j (by omega), dEq]
    exact same j (by omega)
  have fudata : f.heap.udata u = { block with metatable := some mt } := by
    rw [fEq, ← eudata]
    exact setAt_same _ _ _
  have meta' : BufferMeta registry f.heap mt := by
    have registered' : luaHGet (d.heap.tables registry) (.string (literal "buffer")) =
        .table mt := by
      rw [dEq]
      exact registered
    obtain ⟨found, call, len, newindex, index⟩ := withMethods_meta other registered'
    rw [fEq, eEq]
    exact ⟨found, call, len, newindex, index⟩
  refine ⟨f, ?_, ftop, ?_, ?_, ⟨mt, by rw [fudata], meta'⟩, by rw [fudata, blockEq]⟩
  · rw [lunatikBufNew, bind_ok checked, bind_ok (vmPop_run 1 s), ← aEq, bind_ok (get_run a),
      bind_ok (setHeap_run _ a), ← blockEq, ← bEq, bind_ok (push_run _ b), ← cEq, bind_ok ran, ran',
      bind_ok (vmSetmetatable_run first second), ← fEq]
    rfl
  · exact below.trans (fsame.mono (by omega))
  · rw [ftop, fsame _ (by omega), data]

/-! ## A heap with one buffer -/

-- the registry is the table 0, and nothing has been registered
def libraryHeap : Heap where
  tables := fun _ => ⟨[], none, 0⟩
  closures := fun _ => .c 0 [] 0
  upvals := fun _ => .closed .nil
  udata := fun _ => ⟨[], none⟩
  mt := fun _ => none
  nextTable := 1
  nextClosure := 0
  nextUpval := 0

theorem libraryHeap_registry : BufferRegistry 0 libraryHeap := ⟨rfl, Nat.one_pos, .inl rfl⟩

-- the userdata 0 is a buffer with the metatable 1
def bufferHeap (bytes : List UInt8) : Heap :=
  withMethods
    { libraryHeap with
      tables := setAt libraryHeap.tables 0 (setField ⟨[], none, 0⟩ "buffer" (.table 1))
      udata := fun _ => ⟨bytes, some 1⟩
      nextTable := 2 } 1

theorem bufferHeap_buffer (bytes : List UInt8) : IsBuffer 0 (bufferHeap bytes) 0 :=
  ⟨1, rfl, withMethods_meta Nat.zero_ne_one (setField_same _ _ _)⟩

-- a C function called with one argument
def calledState (h : Heap) (arg : TValue) : LuaState where
  stack := fun _ => arg
  top := 1
  heap := h
  openupval := []
  frames := []
  mode := .native

end Lunatik.Verified
