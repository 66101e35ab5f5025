import Lunatik.Verified.VmInvariant

/-! # The operations of the interpreter keep the invariant

First the operations that leave the calls and the closures alone, for any frozen predicate;
then the monitored accesses of an instruction, which cannot fault under the conditions that
the verifier has checked; then calls and returns.
-/

namespace Lunatik.Verified

open Lunatik.Lua Lunatik.Library

variable {P : LuaState → Prop}

/-! ## Stack, tables and upvalues -/

theorem raiseError_failed {α : Type} {Q : α → LuaState → Prop} (hP : Frozen P) (e : VmError) :
    Triple P (raiseError e : VmM α) Q Failed :=
  Triple.raise fun s h => ⟨.inl ⟨e, rfl⟩, hP.sane s h⟩

theorem slot_quiet (n : Nat) : Triple P (slot n) (fun _ => P) Failed :=
  Triple.get_bind fun _ => Triple.ret fun _ h => h.1

theorem setSlot_quiet (hP : Frozen P) (n : Nat) (v : TValue) :
    Triple P (setSlot n v) (fun _ => P) Failed :=
  Triple.update fun s h => hP.frame s _ h rfl rfl rfl rfl

theorem setTop_quiet (hP : Frozen P) (n : Nat) : Triple P (setTop n) (fun _ => P) Failed :=
  Triple.update fun s h => hP.frame s _ h rfl rfl rfl rfl

theorem push_quiet (hP : Frozen P) (v : TValue) : Triple P (push v) (fun _ => P) Failed :=
  Triple.update fun s h => hP.frame s _ h rfl rfl rfl rfl

theorem setHeap_quiet (hP : Frozen P) {s : LuaState} {h : Heap}
    (closures : h.closures = s.heap.closures) (next : h.nextClosure = s.heap.nextClosure) :
    Triple (fun t => P t ∧ t = s) (setHeap h) (fun _ => P) Failed := by
  apply Triple.update
  rintro t ⟨holds, rfl⟩
  exact hP.frame t _ holds rfl rfl closures next

-- a write of the whole state that leaves the calls and the closures
theorem set_quiet (hP : Frozen P) {s s' : LuaState} (frames : s'.frames = s.frames)
    (mode : s'.mode = s.mode) (closures : s'.heap.closures = s.heap.closures)
    (next : s'.heap.nextClosure = s.heap.nextClosure) :
    Triple (fun t => P t ∧ t = s) (set s' : VmM PUnit) (fun _ => P) Failed := by
  rintro t ⟨holds, rfl⟩
  exact hP.frame t s' holds frames mode closures next

theorem upvalGet_quiet (id : Nat) : Triple P (upvalGet id) (fun _ => P) Failed := by
  apply Triple.get_bind
  intro s
  split
  · exact (slot_quiet _).pre fun _ h => h.1
  · exact Triple.ret fun _ h => h.1

theorem upvalSet_quiet (hP : Frozen P) (id : Nat) (v : TValue) :
    Triple P (upvalSet id v) (fun _ => P) Failed := by
  apply Triple.get_bind
  intro s
  dsimp only
  split
  · exact (setSlot_quiet hP _ _).pre fun _ h => h.1
  · exact setHeap_quiet hP rfl rfl

theorem luaFFindupval_quiet (hP : Frozen P) (level : Nat) :
    Triple P (luaFFindupval level) (fun _ => P) Failed := by
  apply Triple.get_bind
  intro s
  split
  · exact Triple.ret fun _ h => h.1
  · exact Triple.bind (set_quiet hP rfl rfl rfl rfl) fun _ => Triple.ret fun _ h => h

theorem closeOpen_closures (stack : Nat → TValue) (level : Nat) (ids : List Nat) (heap : Heap) :
    (closeOpen stack level ids heap).2.closures = heap.closures ∧
      (closeOpen stack level ids heap).2.nextClosure = heap.nextClosure := by
  induction ids generalizing heap with
  | nil => exact ⟨rfl, rfl⟩
  | cons id rest ih =>
    simp only [closeOpen]
    split
    · exact ih _
    · exact ⟨rfl, rfl⟩

theorem luaFClose_quiet (hP : Frozen P) (level : Nat) :
    Triple P (luaFClose level) (fun _ => P) Failed := by
  apply Triple.update
  intro s h
  obtain ⟨closures, next⟩ := closeOpen_closures s.stack level s.openupval s.heap
  exact hP.frame s _ h rfl rfl closures next

theorem luaHNew_quiet (hP : Frozen P) (t : Table) : Triple P (luaHNew t) (fun _ => P) Failed := by
  apply Triple.get_bind
  intro s
  exact Triple.bind (setHeap_quiet hP rfl rfl) fun _ => Triple.ret fun _ h => h

theorem fasttm_closures (heap : Heap) (mt : Option Nat) (event : TMS) :
    (fasttm heap mt event).2.closures = heap.closures ∧
      (fasttm heap mt event).2.nextClosure = heap.nextClosure := by
  cases mt with
  | none => exact ⟨rfl, rfl⟩
  | some m =>
    simp only [fasttm]
    split
    · exact ⟨rfl, rfl⟩
    · split
      · exact ⟨rfl, rfl⟩
      · exact ⟨rfl, rfl⟩

theorem vmFasttm_quiet (hP : Frozen P) (mt : Option Nat) (event : TMS) :
    Triple P (vmFasttm mt event) (fun _ => P) Failed := by
  apply Triple.get_bind
  intro s
  obtain ⟨closures, next⟩ := fasttm_closures s.heap mt event
  exact Triple.bind (setHeap_quiet hP closures next) fun _ => Triple.ret fun _ h => h

theorem luaHSet_quiet (hP : Frozen P) (h : Nat) (key : TValue) :
    Triple P (luaHSet h key) (fun _ => P) Failed := by
  apply Triple.get_bind
  intro s
  refine Triple.bind (setHeap_quiet (s := s) hP ?_ ?_) ?_
  · rfl
  · rfl
  intro _
  apply Triple.cond
  · intro _
    exact raiseError_failed hP _
  · intro _
    exact Triple.ret fun _ holds => holds

theorem putTable_quiet (hP : Frozen P) (h : Nat) (key v : TValue) :
    Triple P (putTable h key v) (fun _ => P) Failed :=
  Triple.get_bind fun _ => setHeap_quiet hP rfl rfl

theorem getCompTM_quiet (hP : Frozen P) (mt1 mt2 : Option Nat) (event : TMS) :
    Triple P (getCompTM mt1 mt2 event) (fun _ => P) Failed := by
  apply Triple.bind (vmFasttm_quiet hP _ _)
  intro first
  split
  · exact Triple.ret fun _ h => h
  · apply Triple.cond
    · intro _
      exact Triple.ret fun _ h => h
    · intro _
      apply Triple.bind (vmFasttm_quiet hP _ _)
      intro second
      split
      · exact Triple.ret fun _ h => h
      · exact Triple.ret fun _ h => h

-- unchecked accesses after a test of the tag
theorem nvalue_quiet {v : TValue} (isNumber : ∃ n, v = .number n) :
    Triple P (nvalue v) (fun _ => P) Failed := by
  obtain ⟨n, rfl⟩ := isNumber
  exact Triple.ret fun _ h => h

theorem hvalue_quiet (h : Nat) : Triple P (hvalue (.table h)) (fun _ => P) Failed :=
  Triple.ret fun _ holds => holds

theorem rawtsvalue_quiet {v : TValue} (isString : ∃ s, v = .string s) :
    Triple P (rawtsvalue v) (fun _ => P) Failed := by
  obtain ⟨s, rfl⟩ := isString
  exact Triple.ret fun _ h => h

theorem isNumber_of_ttype {v : TValue} {n : LuaNumber} (same : ttype v = ttype (.number n)) :
    ∃ m, v = .number m := by
  cases v with
  | number m => exact ⟨m, rfl⟩
  | _ => cases same

theorem isString_of_ttype {v : TValue} {s : List UInt8} (same : ttype v = ttype (.string s)) :
    ∃ t, v = .string t := by
  cases v with
  | string t => exact ⟨t, rfl⟩
  | _ => cases same

/-! ## Calls -/

/-- After `tryfuncTM` the slot holds a function. -/
theorem tryfuncTM_spec (hP : Frozen P) (func : Nat) :
    Triple P (tryfuncTM func) (fun _ s => P s ∧ ∃ id, s.stack func = .function id) Failed := by
  apply Triple.get_bind
  intro s
  split
  next tm _ =>
    rintro t ⟨holds, rfl⟩
    exact ⟨hP.frame t _ holds rfl rfl rfl rfl, tm, by simp⟩
  next => exact (raiseError_failed hP _).pre fun _ h => h.1

theorem callable_spec (hP : Frozen P) (func : Nat) :
    Triple P (callable func) (fun _ s => P s ∧ ∃ id, s.stack func = .function id) Failed := by
  apply Triple.bind (R := fun v s => P s ∧ v = s.stack func)
  · apply Triple.get_bind
    intro s
    apply Triple.ret
    rintro t ⟨holds, rfl⟩
    exact ⟨holds, rfl⟩
  intro v
  split
  next id => exact Triple.ret fun _ h => ⟨h.1, id, h.2.symm⟩
  next => exact (tryfuncTM_spec hP func).pre fun _ h => h.1

theorem newArgTable_quiet (hP : Frozen P) (p : Proto) (actual : Nat) :
    Triple P (newArgTable p actual) (fun _ => P) Failed := by
  apply Triple.cond
  · intro _
    apply Triple.get_bind
    intro s
    exact Triple.bind ((luaHNew_quiet hP _).pre fun _ h => h.1) fun _ => Triple.ret fun _ h => h
  · intro _
    exact Triple.ret fun _ h => h

theorem moveFixed_quiet (hP : Frozen P) (nfixargs actual : Nat) :
    Triple P (moveFixed nfixargs actual) (fun _ => P) Failed := by
  apply Triple.get_bind
  intro s
  refine Triple.bind (set_quiet (s := s) hP ?_ ?_ ?_ ?_) fun _ => Triple.ret fun _ h => h
  all_goals rfl

theorem pushArgTable_quiet (hP : Frozen P) (htab : Option Nat) :
    Triple P (pushArgTable htab) (fun _ => P) Failed := by
  cases htab with
  | none => exact Triple.ret fun _ h => h
  | some h => exact push_quiet hP _

theorem adjustVarargs_quiet (hP : Frozen P) (p : Proto) (actual : Int) :
    Triple P (adjustVarargs p actual) (fun _ => P) Failed := by
  refine Triple.bind (R := fun _ => P) (Triple.update fun s h => hP.frame s _ h rfl rfl rfl rfl) ?_
  intro _
  apply Triple.bind (newArgTable_quiet hP p _)
  intro htab
  apply Triple.bind (moveFixed_quiet hP _ _)
  intro base
  exact Triple.bind (pushArgTable_quiet hP htab) fun _ => Triple.ret fun _ h => h

theorem precallBase_quiet (hP : Frozen P) (p : Proto) (func : Nat) :
    Triple P (precallBase p func) (fun _ => P) Failed := by
  apply Triple.get_bind
  intro s
  apply Triple.pre (P := P) ?_ (fun _ h => h.1)
  apply Triple.cond
  · intro _
    apply Triple.cond
    · intro _
      exact Triple.bind (setTop_quiet hP _) fun _ => Triple.ret fun _ h => h
    · intro _
      exact Triple.ret fun _ h => h
  · intro _
    exact adjustVarargs_quiet hP p _

-- the innermost call is continued by `kont`
def Entered (kont : Kont) (s : LuaState) : Prop :=
  VmInv s ∧ ∃ ci rest, s.frames = ci :: rest ∧ ci.kont = kont

/-- A new call stands on top of what it will return to. -/
theorem MayCall.pushed {kont : Kont} {s : LuaState} (h : MayCall kont s) {ci : CallInfo}
    (continued : ci.kont = kont) {s' : LuaState} (frames : s'.frames = ci :: s.frames)
    (heap : s'.heap = s.heap) (head : HeadOk s.heap s'.mode ci) : Entered kont s' := by
  obtain ⟨caller, rest, split, ok⟩ := h.caller
  have below := h.frames
  rw [split] at below
  refine ⟨⟨⟨by rw [heap]; exact h.toSane.heap, ?_⟩, ci, s.frames, frames, by rw [heap]; exact head⟩,
    ci, s.frames, frames, continued⟩
  rw [heap, frames, split]
  refine ⟨?_, below⟩
  rw [continued]
  exact ok

-- a caller that is about to enter the closure `id`
def Entering (kont : Kont) (id : Nat) (p : Proto) (s : LuaState) : Prop :=
  MayCall kont s ∧ ∃ upvals env, s.heap.closures id = .lua p upvals env

theorem entering_frozen (kont : Kont) (id : Nat) (p : Proto) : Frozen (Entering kont id p) where
  sane := fun _ h => h.1.toSane
  frame := by
    intro s s' h frames mode closures next
    refine ⟨(mayCall_frozen kont).frame s s' h.1 frames mode closures next, ?_⟩
    rw [closures]
    exact h.2

theorem precallLua_entered (p : Proto) (id func : Nat) (nresults : Int) (kont : Kont) :
    Triple (Entering kont id p) (precallLua p id func nresults kont)
      (fun _ => Entered kont) Failed := by
  apply Triple.bind (precallBase_quiet (entering_frozen kont id p) p func)
  intro base
  apply Triple.update
  rintro s ⟨mayCall, upvals, env, found⟩
  obtain ⟨checked, _, _⟩ := mayCall.heap id p upvals env found
  exact mayCall.pushed rfl rfl rfl ⟨p, 0, id, rfl, checked, real_zero checked.code,
    upvals, env, found⟩

theorem precallNative_entered (func : Nat) (nresults : Int) (kont : Kont) :
    Triple (MayCall kont) (precallNative func nresults kont) (fun _ => Entered kont) Failed :=
  Triple.update fun _ mayCall => mayCall.pushed rfl rfl rfl rfl

theorem luaDPrecall_entered (func : Nat) (nresults : Int) (kont : Kont) :
    Triple (MayCall kont) (luaDPrecall func nresults kont) (fun _ => Entered kont) Failed := by
  apply Triple.bind (callable_spec (mayCall_frozen kont) func)
  intro _
  apply Triple.get_bind
  intro s
  apply Triple.given (φ := ∃ id, s.stack func = .function id)
  · rintro t ⟨⟨_, found⟩, rfl⟩
    exact found
  rintro ⟨id, found⟩
  rw [found]
  dsimp only
  split
  next p upvals env closure =>
    apply (precallLua_entered p id func nresults kont).pre
    rintro t ⟨⟨mayCall, _⟩, rfl⟩
    exact ⟨mayCall, upvals, env, closure⟩
  next => exact (precallNative_entered func nresults kont).pre fun _ h => h.1.1

theorem luaDCall_inv (func : Nat) (nresults : Int) (kont : Kont) :
    Triple (MayCall kont) (luaDCall func nresults kont) (fun _ => VmInv) Failed :=
  (luaDPrecall_entered func nresults kont).conseq (fun _ h => h) fun _ _ h => h.1

theorem callTMres_inv (kont : Kont) (f p1 p2 : TValue) :
    Triple (MayCall kont) (callTMres kont f p1 p2) (fun _ => VmInv) Failed := by
  have hP := mayCall_frozen kont
  apply Triple.bind (push_quiet hP _)
  intro _
  apply Triple.bind (push_quiet hP _)
  intro _
  apply Triple.bind (push_quiet hP _)
  intro _
  apply Triple.get_bind
  intro s
  exact (luaDCall_inv _ _ _).pre fun _ h => h.1

theorem callTM_inv (f p1 p2 p3 : TValue) :
    Triple (MayCall .tm) (callTM f p1 p2 p3) (fun _ => VmInv) Failed := by
  have hP := mayCall_frozen .tm
  apply Triple.bind (push_quiet hP _)
  intro _
  apply Triple.bind (push_quiet hP _)
  intro _
  apply Triple.bind (push_quiet hP _)
  intro _
  apply Triple.bind (push_quiet hP _)
  intro _
  apply Triple.get_bind
  intro s
  exact (luaDCall_inv _ _ _).pre fun _ h => h.1

/-! ## Tag methods -/

-- a tag method was called, or nothing has happened
theorem callBinTM_inv {kont : Kont} (mayCall : ∀ s, P s → MayCall kont s) (p1 p2 : TValue)
    (event : TMS) :
    Triple P (callBinTM p1 p2 kont event) (fun called s => if called then
      VmInv s else P s) Failed := by
  apply Triple.get_bind
  intro s
  apply Triple.cond
  · intro _
    exact Triple.ret fun _ h => h.1
  · intro _
    apply Triple.bind ((callTMres_inv _ _ _ _).pre fun _ h => mayCall _ h.1)
    intro _
    exact Triple.ret fun _ h => h

theorem callOrderTM_inv {kont : Kont} (mayCall : ∀ s, P s → MayCall kont s) (p1 p2 : TValue)
    (event : TMS) :
    Triple P (callOrderTM kont p1 p2 event) (fun called s => if called then
      VmInv s else P s) Failed := by
  apply Triple.get_bind
  intro s
  apply Triple.cond
  · intro _
    exact Triple.ret fun _ h => h.1
  · intro _
    apply Triple.bind ((callTMres_inv _ _ _ _).pre fun _ h => mayCall _ h.1)
    intro _
    exact Triple.ret fun _ h => h

/-- `call_binTM` where the alternative is an error. -/
theorem callBinTM_or_error {kont : Kont} (hP : Frozen P) (mayCall : ∀ s, P s → MayCall kont s)
    (p1 p2 : TValue) (event : TMS) (e : VmError) :
    Triple P (do if ← callBinTM p1 p2 kont event then return else raiseError e : VmM PUnit)
      (fun _ => VmInv) Failed := by
  apply Triple.bind (callBinTM_inv mayCall p1 p2 event)
  intro called
  cases called with
  | true => exact Triple.ret fun _ h => h
  | false => exact (raiseError_failed hP e).pre fun _ h => h

section

-- an instruction whose saved position holds an instruction
variable {f : Activation} {pc : Nat} (checked : Checked f.p) (real : Real f.p pc)
include checked real

theorem luaVGettable_inv (key : TValue) (val loop : Nat) (t : TValue) :
    Triple (During f pc) (luaVGettable key val loop t) (fun _ => VmInv) Failed := by
  have hP := during_frozen f pc
  induction loop generalizing t with
  | zero => exact raiseError_failed hP _
  | succ loop ih =>
    have viaTM : ∀ tm : TValue, Triple (During f pc) (callTMres (.tmres val) tm t key) (fun _ => VmInv) Failed :=
      fun tm => (callTMres_inv _ _ _ _).pre fun _ h => h.mayCall checked real trivial
    have store : ∀ res, Triple (During f pc) (setSlot val res) (fun _ => VmInv) Failed := fun res =>
      (setSlot_quiet hP val res).conseq (fun _ h => h) fun _ _ h => h.inv checked real
    cases t with
    | table h =>
      apply Triple.get_bind
      intro s
      apply Triple.bind ((hvalue_quiet (P := During f pc) h).pre fun _ h => h.1)
      intro id
      apply Triple.cond
      · intro _
        exact store _
      · intro _
        apply Triple.bind (vmFasttm_quiet hP _ _)
        intro tm
        cases tm with
        | none => exact store _
        | some tm =>
          dsimp only
          split
          · exact viaTM _
          · exact ih _
    | _ =>
      apply Triple.get_bind
      intro s
      apply Triple.pre (P := During f pc) ?_ (fun _ h => h.1)
      split
      · exact raiseError_failed hP _
      · dsimp only
        split
        · exact viaTM _
        · exact ih _

theorem luaVSettable_inv (key val : TValue) (loop : Nat) (t : TValue) :
    Triple (During f pc) (luaVSettable key val loop t) (fun _ => VmInv) Failed := by
  have hP := during_frozen f pc
  induction loop generalizing t with
  | zero => exact raiseError_failed hP _
  | succ loop ih =>
    have viaTM : ∀ tm : TValue, Triple (During f pc) (callTM tm t key val) (fun _ => VmInv) Failed :=
      fun tm => (callTM_inv _ _ _ _).pre fun _ h => h.mayCall checked real trivial
    have store : ∀ h, Triple (During f pc) (putTable h key val) (fun _ => VmInv) Failed := fun h =>
      (putTable_quiet hP h key val).conseq (fun _ h => h) fun _ _ h => h.inv checked real
    cases t with
    | table h =>
      apply Triple.bind (hvalue_quiet (P := During f pc) h)
      intro id
      apply Triple.get_bind
      intro s
      apply Triple.bind ((luaHSet_quiet hP id key).pre fun _ h => h.1)
      intro _
      apply Triple.cond
      · intro _
        exact store _
      · intro _
        apply Triple.bind (vmFasttm_quiet hP _ _)
        intro tm
        cases tm with
        | none => exact store _
        | some tm =>
          dsimp only
          split
          · exact viaTM _
          · exact ih _
    | _ =>
      apply Triple.get_bind
      intro s
      apply Triple.pre (P := During f pc) ?_ (fun _ h => h.1)
      split
      · exact raiseError_failed hP _
      · dsimp only
        split
        · exact viaTM _
        · exact ih _

end

/-! ## Comparisons -/

-- decided, or left to a tag method
def Compared (f : Activation) (pc : Nat) (res : Option Bool) (s : LuaState) : Prop :=
  match res with
  | some _ => During f pc s
  | none => VmInv s

theorem numbers_compared {f : Activation} {pc : Nat} {l r : TValue} (left : ∃ n, l = .number n)
    (right : ∃ n, r = .number n) (test : LuaNumber → LuaNumber → Bool) :
    Triple (During f pc) (do return some (test (← nvalue l) (← nvalue r)))
      (Compared f pc) Failed := by
  apply Triple.bind (nvalue_quiet left)
  intro _
  apply Triple.bind (nvalue_quiet right)
  intro _
  exact Triple.ret fun _ h => h

theorem strings_compared {f : Activation} {pc : Nat} {l r : TValue} (left : ∃ s, l = .string s)
    (right : ∃ s, r = .string s) (test : List UInt8 → List UInt8 → Bool) :
    Triple (During f pc) (do return some (test (← rawtsvalue l) (← rawtsvalue r)))
      (Compared f pc) Failed := by
  apply Triple.bind (rawtsvalue_quiet left)
  intro _
  apply Triple.bind (rawtsvalue_quiet right)
  intro _
  exact Triple.ret fun _ h => h

section

variable {f : Activation} {pc : Nat} (checked : Checked f.p) (real : Real f.p pc)
    (branch : BranchAt f.p pc)
include checked real branch

theorem compare_mayCall (i : Instruction) (negate : Bool) (s : LuaState) (h : During f pc s) :
    MayCall (.compare i negate) s :=
  h.mayCall checked real branch

theorem luaVLessthan_inv (i : Instruction) (l r : TValue) :
    Triple (During f pc) (luaVLessthan i l r) (Compared f pc) Failed := by
  have hP := during_frozen f pc
  apply Triple.cond
  · intro _
    exact raiseError_failed hP _
  · intro same
    have sameType : ttype l = ttype r := not_not.mp same
    split
    next n => exact numbers_compared ⟨n, rfl⟩ (isNumber_of_ttype sameType.symm) _
    next str => exact strings_compared ⟨str, rfl⟩ (isString_of_ttype sameType.symm) _
    next =>
      apply Triple.bind (callOrderTM_inv (compare_mayCall checked real branch i false) l r .lt)
      intro called
      cases called with
      | true => exact Triple.ret fun _ h => h
      | false => exact (raiseError_failed hP _).pre fun _ h => h

theorem lessequal_inv (i : Instruction) (l r : TValue) :
    Triple (During f pc) (lessequal i l r) (Compared f pc) Failed := by
  have hP := during_frozen f pc
  apply Triple.cond
  · intro _
    exact raiseError_failed hP _
  · intro same
    have sameType : ttype l = ttype r := not_not.mp same
    split
    next n => exact numbers_compared ⟨n, rfl⟩ (isNumber_of_ttype sameType.symm) _
    next str => exact strings_compared ⟨str, rfl⟩ (isString_of_ttype sameType.symm) _
    next =>
      apply Triple.bind (callOrderTM_inv (compare_mayCall checked real branch i false) l r .le)
      intro called
      cases called with
      | true => exact Triple.ret fun _ h => h
      | false =>
        apply Triple.bind (P := During f pc) (callOrderTM_inv
          (compare_mayCall checked real branch i true) r l .lt)
        intro called
        cases called with
        | true => exact Triple.ret fun _ h => h
        | false => exact (raiseError_failed hP _).pre fun _ h => h

theorem equalByTM_inv (i : Instruction) (t1 t2 : TValue) (mt1 mt2 : Option Nat) :
    Triple (During f pc) (equalByTM i t1 t2 mt1 mt2) (Compared f pc) Failed := by
  apply Triple.bind (getCompTM_quiet (during_frozen f pc) mt1 mt2 .eq)
  intro tm
  cases tm with
  | none => exact Triple.ret fun _ h => h
  | some tm =>
    apply Triple.bind ((callTMres_inv _ _ _ _).pre (compare_mayCall checked real branch i false))
    intro _
    exact Triple.ret fun _ h => h

theorem equalobj_inv (i : Instruction) (t1 t2 : TValue) :
    Triple (During f pc) (equalobj i t1 t2) (Compared f pc) Failed := by
  apply Triple.get_bind
  intro s
  apply Triple.pre (P := During f pc) ?_ (fun _ h => h.1)
  apply Triple.cond
  · intro _
    exact Triple.ret fun _ h => h
  · intro same
    have sameType : ttype t1 = ttype t2 := not_not.mp same
    split
    next n => exact numbers_compared ⟨n, rfl⟩ (isNumber_of_ttype sameType.symm) _
    next =>
      apply Triple.cond
      · intro _
        exact Triple.ret fun _ h => h
      · intro _
        exact equalByTM_inv checked real branch i _ _ _ _
    next =>
      apply Triple.cond
      · intro _
        exact Triple.ret fun _ h => h
      · intro _
        exact equalByTM_inv checked real branch i _ _ _ _
    next => exact Triple.ret fun _ h => h

end

end Lunatik.Verified
