import Lunatik.Core.CollectedBuffers
import Lunatik.Verified.FrameHeights

/-! # Buffers that are read under the collector

`lunatik_sha1` and `lunatik_get_random_bytes` leave their buffers in slots below the top, where every
collection finds them.  `lunatik_buf_call` pops its buffer before it makes the table, so at that one
collection the buffer is on its own.
-/

namespace Lunatik.Verified

open Lunatik.Lua Lunatik.Lua.Frame Lunatik.Core.Frames Lunatik.Library

variable {W α : Type} {F : Floor W} {h : Nat}

/-! ## Pointers into slots -/

/-- Each collection found every userdata that a pointer had been taken from in a slot below the top. -/
def Held (events : List (Event W)) : Prop :=
  ∀ late stack top world early u, events = late ++ .collect stack top world :: early →
    .take u ∈ early → ∃ j < top, stack j = .userdata u

theorem Held.nil : Held ([] : List (Event W)) := by
  intro late stack top world early u split
  simp at split

theorem Held.cons {events : List (Event W)} (held : Held events) {e : Event W}
    (other : ∀ stack top world, e ≠ .collect stack top world) : Held (e :: events) := by
  intro late stack top world early u split taken
  cases late with
  | nil =>
    injection split with same
    exact (other stack top world same).elim
  | cons e' late =>
    injection split with _ rest
    exact held late stack top world early u rest taken

theorem Held.collect {events : List (Event W)} (held : Held events) {stack : Nat → TValue} {top : Nat}
    (found : ∀ u, .take u ∈ events → ∃ j < top, stack j = .userdata u) (world : W) :
    Held (.collect stack top world :: events) := by
  intro late stack' top' world' early u split taken
  cases late with
  | nil =>
    injection split with same rest
    cases same
    rw [← rest] at taken
    exact found u taken
  | cons e late =>
    injection split with _ rest
    exact held late stack' top' world' early u rest taken

/-- Below the floor lies every userdata that a pointer was taken from, and above it none is. -/
structure Carries (F : Floor W) : Prop where
  held : Held F.old
  taken : ∀ u, .take u ∈ F.old → ∃ j < F.base, F.below j = .userdata u
  idle : ¬ F.pointers

namespace Carries

theorem taken_since (carries : Carries F) {events : List (Event W)} (since : Since F.Valid F.old events)
    (u : Nat) (member : .take u ∈ events) : ∃ j < F.base, F.below j = .userdata u := by
  obtain ⟨new, rfl, valid⟩ := since
  rcases List.mem_append.mp member with above | before
  · exact (carries.idle (valid _ above)).elim
  · exact carries.taken u before

theorem held_since (carries : Carries F) {events : List (Event W)} (since : Since F.Valid F.old events) :
    Held events := by
  obtain ⟨new, rfl, valid⟩ := since
  induction new with
  | nil => exact carries.held
  | cons e new ih =>
    have rest : ∀ e ∈ new, F.Valid e := fun e member => valid e (List.mem_cons_of_mem _ member)
    have here := valid e List.mem_cons_self
    cases e with
    | below n top => exact (ih rest).cons nofun
    | collect stack top world =>
      refine (ih rest).collect (fun u member => ?_) world
      obtain ⟨j, low, found⟩ := carries.taken_since ⟨new, rfl, rest⟩ u member
      exact ⟨j, Nat.lt_of_lt_of_le low here.1, (here.2 j low).trans found⟩
    | take u => exact (carries.idle here).elim
    | access u => exact (carries.idle here).elim

-- an error comes to what was held before
theorem held_error (carries : Carries F) {m : FrameM W α} {h' : Nat} (climbs : Climbs F h m h') :
    Triple (Inside F h) m (fun _ => Inside F h') fun _ s => Held s.events :=
  climbs.errors fun _ _ ⟨_, inside⟩ => carries.held_since inside.valid

theorem held_climbs (carries : Carries F) {m : FrameM W α} {h' : Nat} (climbs : Climbs F h m h') :
    Triple (Inside F h) m (fun _ s => Held s.events) fun _ s => Held s.events :=
  (carries.held_error climbs).conseq (fun _ inside => inside)
    fun _ _ inside => carries.held_since inside.valid

end Carries

/-! ### A new userdata -/

section Host

variable (H : Host W)

/-- The userdata goes below a floor of its own. -/
theorem luaNewuserdata_carries (carries : Carries F) (size : Nat) :
    Triple (Inside F h) (luaNewuserdata H.toRuntime size)
      (fun _ s => ∃ F', Carries F' ∧ Inside F' 0 s) fun _ s => Held s.events := by
  refine Triple.bind (carries.held_error (checkGC_climbs H.toRuntime)) fun _ => ?_
  refine Triple.bind (carries.held_error (orRaise_climbs _)) fun u s inside => ?_
  refine ⟨⟨s.top + 1, setAt s.stack s.top (.userdata u), .take u :: s.events, False⟩, ?_, ?_⟩
  · refine ⟨(carries.held_since inside.valid).cons nofun, fun u' member => ?_, id⟩
    rcases List.mem_cons.mp member with same | before
    · cases same
      exact ⟨s.top, Nat.lt_succ_self _, setAt_same _ _ _⟩
    · obtain ⟨j, low, found⟩ := carries.taken_since inside.valid u' before
      have top := inside.top_eq
      refine ⟨j, by dsimp only; omega, ?_⟩
      exact (setAt_other _ _ (by omega)).trans ((inside.kept j low).trans found)
  · exact ⟨rfl, Since.refl _ _, fun _ _ => rfl⟩

-- what was held stays held without a collection
theorem observe_held {e : Event W} (other : ∀ stack top world, e ≠ .collect stack top world) :
    Kept (fun s : FrameState W => Held s.events) (observe e) :=
  Kept.update fun _ held => held.cons other

theorem index2adr_held (n : Nat) : Kept (fun s : FrameState W => Held s.events) (index2adr n) :=
  Kept.get_bind fun _ _ => Kept.bind (observe_held nofun) fun _ => Kept.ret _

theorem topValue_held (n : Nat) : Kept (fun s : FrameState W => Held s.events) (topValue n) :=
  Kept.bind (index2adr_held n) fun _ => Kept.get_bind fun _ _ => Kept.ret _

theorem luaSetmetatable_held (n : Nat) :
    Kept (fun s : FrameState W => Held s.events) (Frame.luaSetmetatable H.toRuntime n) :=
  Kept.bind (topValue_held 1) fun _ => Kept.bind (topValue_held n) fun _ => Kept.update fun _ held => held

theorem resultBlock_held : Kept (fun s : FrameState W => Held s.events) resultBlock := by
  refine Kept.bind (Kept.bind (topValue_held 1) fun o => ?_) fun _ => Kept.ret _
  split
  next => exact Kept.bind (observe_held nofun) fun _ => Kept.ret _
  next => exact Kept.ret _
  next => exact Kept.ret _

theorem accessBlock_held (buf : TValue) : Kept (fun s : FrameState W => Held s.events) (accessBlock buf) := by
  unfold accessBlock
  split
  next => exact observe_held nofun
  next => exact Kept.ret _

theorem modifyWorld_held (f : W → W) : Kept (fun s : FrameState W => Held s.events) (modifyWorld f) :=
  Kept.update fun _ held => held

theorem newBuffer_held (carries : Carries F) (size : Nat) :
    Triple (Inside F h) (newBuffer H size) (fun _ s => Held s.events) fun _ s => Held s.events := by
  refine Triple.bind (luaNewuserdata_carries H carries size) fun _ => Triple.exists_pre fun F' => ?_
  refine Triple.given (φ := Carries F') (fun _ both => both.1) fun carries' => ?_
  have fields : Climbs F' 0 (do
      luaLNewmetatable H.toRuntime "buffer"
      setMetamethod H .call addrBufCall
      setMetamethod H .len addrBufLength
      setMetamethod H .newindex addrBufNewindex
      setMetamethod H .index addrBufIndex) 1 := by
    refine (luaLNewmetatable_climbs _ _).bind fun _ => (setMetamethod_climbs H .call _).bind fun _ => ?_
    refine (setMetamethod_climbs H .len _).bind fun _ => (setMetamethod_climbs H .newindex _).bind fun _ => ?_
    exact setMetamethod_climbs H .index _
  have filled := Triple.bind (carries'.held_climbs fields) fun _ => luaSetmetatable_held H 2
  simp only [bind_assoc] at filled
  exact filled.pre fun _ both => both.2

theorem lunatikBufNew_held (carries : Carries F) :
    Triple (Inside F (h + 1)) (lunatikBufNew H) (fun _ s => Held s.events) fun _ s => Held s.events := by
  refine Triple.bind (carries.held_error (luaLCheckinteger_climbs _ (by omega))) fun size => ?_
  refine Triple.bind (carries.held_error (luaPop_climbs (by omega))) fun _ => ?_
  exact Triple.bind (newBuffer_held H carries _) fun _ => Triple.ret fun _ held => held

end Host

/-! ## The check of the argument -/

/-- No pointer was followed. -/
def Unread (events : List (Event W)) : Prop := ∀ u, .access u ∉ events

theorem Unread.safe {events : List (Event GlobalState)} (unread : Unread events) : SafeReads events := by
  rintro late stack top g early u rfl access -
  exact (unread u (List.mem_append_left _ access)).elim

theorem Held.safe {events : List (Event GlobalState)} (held : Held events) : SafeReads events := by
  intro late stack top g early u split _ taken
  obtain ⟨j, low, found⟩ := held late stack top g early u split taken
  refine .slot j low ?_
  rw [found, markvalue]
  exact List.mem_singleton_self _

theorem Unread.since {events : List (Event W)} (idle : ¬ F.pointers) (unread : Unread F.old)
    (since : Since F.Valid F.old events) : Unread events := by
  obtain ⟨new, rfl, valid⟩ := since
  intro u access
  rcases List.mem_append.mp access with above | before
  · exact idle (valid _ above)
  · exact unread u before

theorem luaLTyperror_unread (R : Runtime W) (tname : String) :
    Triple (fun s => 0 < s.top ∧ Unread s.events) (Frame.luaLTyperror R 1 tname : FrameM W α)
      (fun _ _ => False) fun _ s => Unread s.events := by
  rintro s ⟨above, unread⟩
  let F : Floor W := ⟨s.top - 1, s.stack, s.events, False⟩
  have inside : Inside F 1 s := ⟨(Nat.sub_add_cancel above).symm, Since.refl _ _, fun _ _ => rfl⟩
  have raised := Climbs.raises (F := F) (h := 1) (m := (Frame.luaLTyperror R 1 tname : FrameM W α))
    fun _ => luaLTyperror_climbs R le_rfl tname
  exact raised.errors (fun _ _ ⟨_, inside⟩ => unread.since id inside.valid) s inside

section Check

variable {other : Host GlobalState} {s : FrameState GlobalState}

theorem topValue_run (n : Nat) (s : FrameState W) :
    topValue n s = .ok (s.stack (s.top - n)) { s with events := .below n s.top :: s.events } := rfl

theorem orRaise_ok {f : W → Option (α × W)} {s : FrameState W} {a : α} {w : W}
    (granted : f s.world = some (a, w)) : Frame.orRaise f s = .ok a { s with world := w } := by
  rw [Frame.orRaise, bind_ok (get_run s), granted]
  rfl

theorem orRaise_none {f : W → Option (α × W)} {s : FrameState W} (refused : f s.world = none) :
    Frame.orRaise f s = .error .error s := by
  rw [Frame.orRaise, bind_ok (get_run s), refused]
  rfl

theorem bufferMetatable_gettable {g : GlobalState} {h : Nat} (registry : g.registry = .table h)
    (plain : (g.heap.tables h).metatable = none) :
    (heapHost other).gettable g g.registry (.string (literal "buffer")) = some (bufferMetatable g, g) := by
  rw [bufferMetatable, registry]
  dsimp only [heapHost]
  rw [plain]
  cases luaHGet (g.heap.tables h) (.string (literal "buffer")) <;> rfl

-- the name is interned, and its value pushed
theorem luaGetRegistryField_ok {h : Nat} (registry : s.world.registry = .table h)
    (plain : (s.world.heap.tables h).metatable = none)
    (name : (other.newlstr s.world (literal "buffer")).isSome) :
    luaGetRegistryField (heapHost other).toRuntime "buffer" s =
      .ok ⟨⟩ { s with stack := setAt s.stack s.top (bufferMetatable s.world), top := s.top + 1 } := by
  obtain ⟨g, granted⟩ := Option.isSome_iff_exists.mp name
  have interned : orRaiseUnit (fun w => (heapHost other).newlstr w (literal "buffer")) s = .ok ⟨⟩ s :=
    orRaise_ok (w := s.world) (by simp [granted])
  rw [luaGetRegistryField, bind_ok interned]
  rw [bind_ok (orRaise_ok (bufferMetatable_gettable registry plain))]
  rfl

theorem luaGetRegistryField_refused (name : other.newlstr s.world (literal "buffer") = none) :
    luaGetRegistryField (heapHost other).toRuntime "buffer" s = .error .error s := by
  have refused : orRaiseUnit (fun w => (heapHost other).newlstr w (literal "buffer")) s = .error .error s :=
    orRaise_none (by simp [name])
  rw [luaGetRegistryField, bind_error refused]

theorem luaGetmetatable_some {R : Runtime W} {s : FrameState W} {n : Nat} {mt : TValue}
    (found : R.getmetatable s.world (s.stack (s.top - n)) = some mt) :
    Frame.luaGetmetatable R n s = .ok true { s with
      stack := setAt s.stack s.top mt
      top := s.top + 1
      events := .below n s.top :: s.events } := by
  rw [Frame.luaGetmetatable, bind_ok (topValue_run n s), bind_ok (get_run _)]
  dsimp only
  rw [found]
  rfl

theorem luaGetmetatable_none {R : Runtime W} {s : FrameState W} {n : Nat}
    (absent : R.getmetatable s.world (s.stack (s.top - n)) = none) :
    Frame.luaGetmetatable R n s = .ok false { s with events := .below n s.top :: s.events } := by
  rw [Frame.luaGetmetatable, bind_ok (topValue_run n s), bind_ok (get_run _)]
  dsimp only
  rw [absent]
  rfl

/-- What the check of an argument observes. -/
def OfCheck (p : TValue) : Event W → Prop
  | .below _ _ => True
  | .take u => p = .userdata u
  | _ => False

-- lua_touserdata has a pointer of these
def IsUserdata : TValue → Prop
  | .userdata _ => True
  | .lightuserdata _ => True
  | _ => False

theorem luaTouserdata_run (s : FrameState W) : ∃ found events,
    luaTouserdata 1 s = .ok found { s with events } ∧
      (found = none ∨ found = some (s.stack (s.top - 1)) ∧ IsUserdata (s.stack (s.top - 1))) ∧
      Since (OfCheck (s.stack (s.top - 1))) s.events events ∧
      ∀ u, s.stack (s.top - 1) = .userdata u → found = some (.userdata u) ∧ .take u ∈ events := by
  have first : Since (OfCheck (s.stack (s.top - 1))) s.events (.below 1 s.top :: s.events) :=
    (Since.refl _ _).cons trivial
  rw [luaTouserdata, bind_ok (topValue_run 1 s)]
  cases value : s.stack (s.top - 1) with
  | userdata u =>
    rw [value] at first
    refine ⟨_, _, rfl, .inr ⟨rfl, trivial⟩, first.cons rfl, ?_⟩
    rintro _ ⟨⟩
    exact ⟨rfl, List.mem_cons_self⟩
  | lightuserdata p =>
    rw [value] at first
    refine ⟨_, _, rfl, ?_, first, nofun⟩
    by_cases null : p = 0
    · exact .inl (if_pos null)
    · exact .inr ⟨if_neg null, trivial⟩
  | _ =>
    rw [value] at first
    exact ⟨_, _, rfl, .inl rfl, first, nofun⟩

/-- What `luaL_checkudata` leaves: a pointer into the last value, which is where it was. -/
structure CheckedUdata (s t : FrameState GlobalState) (p : TValue) : Prop where
  value : s.stack (s.top - 1) = p
  userdata : IsUserdata p
  top : t.top = s.top
  world : t.world = s.world
  kept : ∀ j < s.top, t.stack j = s.stack j
  observed : Since (OfCheck p) s.events t.events
  taken : ∀ u, p = .userdata u → .take u ∈ t.events

/-- The last value has the metatable of buffers. -/
def Accepted (other : Host GlobalState) (s : FrameState GlobalState) : Prop :=
  (heapHost other).getmetatable s.world (s.stack (s.top - 1)) = some (bufferMetatable s.world) ∧
    (other.newlstr s.world (literal "buffer")).isSome

theorem Unread.check {p : TValue} {old events : List (Event W)} (unread : Unread old)
    (since : Since (OfCheck p) old events) : Unread events := by
  obtain ⟨new, rfl, kind⟩ := since
  intro u access
  rcases List.mem_append.mp access with above | before
  · exact kind _ above
  · exact unread u before

theorem luaLCheckudata_checked (other : Host GlobalState) {h : Nat} (registry : s.world.registry = .table h)
    (plain : (s.world.heap.tables h).metatable = none) (above : 0 < s.top) (unread : Unread s.events) :
    Triple (fun t => t = s) (Frame.luaLCheckudata (heapHost other).toRuntime 1 "buffer")
      (fun p t => CheckedUdata s t p ∧ Accepted other s)
      fun _ t => Unread t.events ∧ ∀ u, s.stack (s.top - 1) = .userdata u → ¬ Accepted other s := by
  have refuse (no : ∀ u, s.stack (s.top - 1) = .userdata u → ¬ Accepted other s) :
      Triple (fun t => 0 < t.top ∧ Unread t.events)
        (Frame.luaLTyperror (heapHost other).toRuntime 1 "buffer" : FrameM _ TValue)
        (fun p t => CheckedUdata s t p ∧ Accepted other s)
        fun _ t => Unread t.events ∧ ∀ u, s.stack (s.top - 1) = .userdata u → ¬ Accepted other s := by
    have raised := (luaLTyperror_unread (α := TValue) (heapHost other).toRuntime "buffer").errors
      (E := fun _ t => Unread t.events ∧ ∀ u, s.stack (s.top - 1) = .userdata u → ¬ Accepted other s)
      fun _ _ unread => ⟨unread, no⟩
    exact raised.conseq (fun _ both => both) fun _ _ impossible => impossible.elim
  intro t same
  rw [same]
  obtain ⟨found, events, start, kind, observed, taken⟩ := luaTouserdata_run s
  have unread' := unread.check observed
  rw [Frame.luaLCheckudata, bind_ok start]
  rcases kind with rfl | ⟨rfl, userdata⟩
  · refine refuse (fun u value => ?_) _ ⟨above, unread'⟩
    have impossible := (taken u value).1
    cases impossible
  dsimp only
  cases mt : (heapHost other).getmetatable s.world (s.stack (s.top - 1)) with
  | none =>
    rw [bind_ok (luaGetmetatable_none (s := { s with events }) mt)]
    refine refuse (fun u _ accepted => ?_) _ ⟨above, ?_⟩
    · rw [Accepted, mt] at accepted
      cases accepted.1
    · exact unread'.check (p := .nil) ((Since.refl _ _).cons trivial)
  | some v =>
    rw [bind_ok (luaGetmetatable_some (s := { s with events }) mt)]
    dsimp only
    rw [if_pos rfl]
    let r : FrameState GlobalState :=
      { s with stack := setAt s.stack s.top v, top := s.top + 1, events := .below 1 s.top :: events }
    cases name : other.newlstr s.world (literal "buffer") with
    | none =>
      rw [bind_error (luaGetRegistryField_refused (s := r) name)]
      refine ⟨unread'.check (p := .nil) ((Since.refl _ _).cons trivial), fun u _ accepted => ?_⟩
      rw [Accepted, name] at accepted
      cases accepted.2
    | some g =>
      rw [bind_ok (luaGetRegistryField_ok (s := r) registry plain (Option.isSome_of_mem name))]
      let r' : FrameState GlobalState :=
        { r with stack := setAt r.stack r.top (bufferMetatable s.world), top := r.top + 1 }
      have field : r'.stack (r'.top - 1) = bufferMetatable s.world := setAt_same _ _ _
      have table : r'.stack (r'.top - 2) = v := (setAt_other _ _ (by simp [r', r])).trans (setAt_same _ _ _)
      have compared : luaRawequal 1 2 r' = .ok (bufferMetatable s.world == v)
          { r' with events := .below 2 r'.top :: .below 1 r'.top :: r'.events } := by
        rw [← field, ← table]
        rfl
      rw [bind_ok compared]
      cases equal : (bufferMetatable s.world == v) with
      | false =>
        have different : bufferMetatable s.world ≠ v := by simpa using equal
        rw [if_neg nofun]
        refine refuse (fun u _ accepted => ?_) _ ⟨Nat.succ_pos _, ?_⟩
        · rw [Accepted, mt] at accepted
          exact different (Option.some.inj accepted.1).symm
        · exact unread'.check (p := .nil)
            ((((Since.refl _ _).cons trivial).cons trivial).cons trivial)
      | true =>
        have same : v = bufferMetatable s.world := (beq_iff_eq.mp equal).symm
        rw [if_pos rfl]
        refine ⟨⟨rfl, userdata, rfl, rfl, fun j low => ?_, ?_, fun u value => ?_⟩, ?_, Option.isSome_of_mem name⟩
        · have above : r.top = s.top + 1 := rfl
          exact (setAt_other _ _ (by omega)).trans (setAt_other _ _ (by omega))
        · show Since _ s.events (.below _ _ :: .below _ _ :: .below _ _ :: .below _ _ :: events)
          exact (((observed.cons (by trivial)).cons (by trivial)).cons (by trivial)).cons (by trivial)
        · exact List.mem_append_right [_, _, _, _] (taken u value).2
        · rw [mt, same]

-- lua_objlen of a value that was checked
theorem CheckedUdata.luaObjlen_run (other : Host GlobalState) {t : FrameState GlobalState} {p : TValue} (checked : CheckedUdata s t p)
    (above : 0 < s.top) : ∃ len, Frame.luaObjlen (heapHost other).toRuntime 1 t =
      .ok len { t with events := .below 1 t.top :: t.events } ∧
        ∀ u, p = .userdata u → len = (s.world.heap.udata u).bytes.length := by
  have last : t.stack (t.top - 1) = p := by
    rw [checked.top, checked.kept _ (Nat.sub_lt above one_pos), checked.value]
  have index : index2adr 1 t = .ok (t.top - 1) { t with events := .below 1 t.top :: t.events } := rfl
  rw [Frame.luaObjlen, bind_ok index, bind_ok (get_run _)]
  dsimp only
  rw [last]
  cases p with
  | userdata u =>
    refine ⟨_, rfl, ?_⟩
    rintro _ ⟨⟩
    rw [heapHost_objlen_userdata, checked.world]
  | lightuserdata q => exact ⟨_, rfl, nofun⟩
  | _ => exact checked.userdata.elim

end Check

/-! ## Buffers in slots -/

section Slots

variable {other : Host GlobalState} {s : FrameState GlobalState}

theorem called_top (called : Called s) : 0 < s.top := Nat.lt_of_lt_of_le called.above called.base_le

theorem called_unread (called : Called s) : Unread s.events := by
  rw [called.fresh]
  exact fun u => List.not_mem_nil

/-- The argument lies below the floor. -/
theorem CheckedUdata.carries {t : FrameState GlobalState} {p : TValue} (checked : CheckedUdata s t p)
    (called : Called s) :
    Carries ⟨s.top, s.stack, .below 1 t.top :: t.events, False⟩ := by
  have observed : Since (OfCheck p) [] (.below 1 t.top :: t.events) := by
    rw [← called.fresh]
    exact checked.observed.cons trivial
  obtain ⟨new, events, kind⟩ := observed
  rw [List.append_nil] at events
  refine ⟨?_, fun u member => ?_, id⟩
  · rintro late stack top world early u split -
    have member : .collect stack top world ∈ new := by
      rw [← events, show .below 1 t.top :: t.events = _ from split]
      exact List.mem_append_right _ List.mem_cons_self
    exact (kind _ member).elim
  · rw [events] at member
    exact ⟨s.top - 1, Nat.sub_lt (called_top called) one_pos, checked.value.trans (kind _ member)⟩

-- the result of lunatik_sha1 is made above its argument
theorem digest_held {F : Floor W} {h : Nat} (carries : Carries F) (H : Host W) (buf : TValue) :
    Triple (Inside F h) (do
        if H.allocHash (← get).world then
          luaPushinteger H.digestsize
          let _ ← lunatikBufNew H
          let result ← resultBlock
          accessBlock buf
          accessBlock result
          modifyWorld fun w => H.hash w buf result
          return 1
        else raiseMessage H "failed to allocate hash \"sha1\"" : FrameM W Nat)
      (fun _ t => Held t.events) fun _ t => Held t.events := by
  refine Triple.get_bind fun g => Triple.pre (Triple.cond (fun _ => ?_) fun _ => ?_) fun _ both => both.1
  · refine Triple.bind (carries.held_error (push_climbs _)) fun _ => ?_
    refine Triple.bind (lunatikBufNew_held H carries) fun _ => ?_
    refine Kept.bind resultBlock_held fun result => Kept.bind (accessBlock_held buf) fun _ => ?_
    refine Kept.bind (accessBlock_held result) fun _ => ?_
    exact Kept.bind (modifyWorld_held _) fun _ => Kept.ret _
  · have raised : Climbs F h (raiseMessage H "failed to allocate hash \"sha1\"" : FrameM W Nat) 0 :=
      raiseMessage_climbs H _
    exact carries.held_climbs raised

theorem lunatikSha1_safe (called : Called s) :
    SafeReads (stateAfter (lunatikSha1 (heapHost other)) s).events := by
  obtain ⟨h, registry, plain⟩ := called.registry
  have check := luaLCheckudata_checked other registry plain (called_top called) (called_unread called)
  have safe : Triple (fun t => t = s) (lunatikSha1 (heapHost other)) (fun _ t => SafeReads t.events)
      fun _ t => SafeReads t.events := by
    refine Triple.bind (check.errors fun _ _ refused => refused.1.safe) fun buf t ⟨checked, _⟩ => ?_
    obtain ⟨len, length, -⟩ := checked.luaObjlen_run other (called_top called)
    rw [bind_ok length]
    have held := (digest_held (h := 0) (checked.carries called) (heapHost other) buf).errors
      (E := fun _ t => SafeReads t.events) fun _ _ held => Held.safe held
    exact Triple.conseq held (fun _ inside => inside) (fun _ _ held => held.safe) _
      ⟨checked.top, Since.refl _ _, checked.kept⟩
  exact safe.after rfl

theorem lunatikGetRandomBytes_safe (called : Called s) :
    SafeReads (stateAfter (lunatikGetRandomBytes (heapHost other)) s).events := by
  have carries : Carries (⟨s.top - 1, s.stack, [], False⟩ : Floor GlobalState) := ⟨.nil, nofun, id⟩
  have filled {F : Floor GlobalState} {h : Nat} (carries : Carries F) (n : BitVec 32) :
      Triple (Inside F h) (do
          luaPushinteger (n.signExtend 64)
          let _ ← lunatikBufNew (heapHost other)
          let buf ← resultBlock
          accessBlock buf
          modifyWorld fun w => (heapHost other).getRandomBytes w buf n.toNat
          return 1 : FrameM GlobalState Nat) (fun _ t => Held t.events) fun _ t => Held t.events := by
    refine Triple.bind (carries.held_error (push_climbs _)) fun _ => ?_
    refine Triple.bind (lunatikBufNew_held _ carries) fun _ => ?_
    refine Kept.bind resultBlock_held fun buf => Kept.bind (accessBlock_held buf) fun _ => ?_
    exact Kept.bind (modifyWorld_held _) fun _ => Kept.ret _
  have held : Triple (Inside ⟨s.top - 1, s.stack, [], False⟩ 1) (lunatikGetRandomBytes (heapHost other))
      (fun _ t => Held t.events) fun _ t => Held t.events := by
    refine Triple.bind (carries.held_error (luaLCheckinteger_climbs _ le_rfl)) fun x => ?_
    refine Triple.cond (fun _ => ?_) fun _ => filled carries _
    have raised : Climbs ⟨s.top - 1, s.stack, [], False⟩ 1
        (raiseMessage (heapHost other) "expected a positive param" : FrameM GlobalState PUnit) 1 :=
      raiseMessage_climbs _ _
    exact Triple.bind (carries.held_error raised) fun _ => filled carries _
  refine (held.after ⟨(Nat.sub_add_cancel (called_top called)).symm, ?_, fun _ _ => rfl⟩).safe
  rw [called.fresh]
  exact Since.refl _ _

end Slots

/-! ## The buffer that is popped -/

section Popped

variable {other : Host GlobalState} {s : FrameState GlobalState}

section Loop

variable {P : Event W → Prop} {old : List (Event W)}

theorem observe_since {e : Event W} (kind : P e) :
    Kept (fun s : FrameState W => Since P old s.events) (observe e) :=
  Kept.update fun _ since => since.cons kind

theorem topValue_since (indices : ∀ n top, P (.below n top)) (n : Nat) :
    Kept (fun s : FrameState W => Since P old s.events) (topValue n) :=
  Kept.get_bind fun _ _ => Kept.bind (observe_since (indices _ _)) fun _ => Kept.get_bind fun _ _ => Kept.ret _

theorem orRaise_since (f : W → Option (α × W)) :
    Kept (fun s : FrameState W => Since P old s.events) (Frame.orRaise f) := by
  refine Kept.get_bind fun s _ => ?_
  split
  next => exact Kept.bind (Kept.update fun _ since => since) fun _ => Kept.ret _
  next => exact Kept.raise _

theorem luaRawseti_since (indices : ∀ n top, P (.below n top)) (R : Runtime W) (n : Nat) (i : Int) :
    Kept (fun s : FrameState W => Since P old s.events) (Frame.luaRawseti R n i) := by
  refine Kept.bind (topValue_since indices n) fun t => Kept.bind (topValue_since indices 1) fun v => ?_
  exact Kept.bind (orRaise_since _) fun _ => Kept.update fun _ since => since

-- a round after its access
theorem storeByte_since (indices : ∀ n top, P (.below n top)) (H : Host W) (c : LuaNumber) (i : Int)
    {rest : FrameM W PUnit} (kept : Kept (fun s : FrameState W => Since P old s.events) rest) :
    Kept (fun s : FrameState W => Since P old s.events) (do
      luaPushinteger c
      Frame.luaRawseti H.toRuntime 2 i
      rest) := by
  refine Kept.bind (Kept.update fun _ since => since) fun _ => ?_
  exact Kept.bind (luaRawseti_since indices _ _ _) fun _ => kept

theorem bufCallLoop_since (indices : ∀ n top, P (.below n top)) (H : Host W) {buf : TValue}
    (accesses : ∀ u, buf = .userdata u → P (.access u)) (idxs : List Nat) :
    Kept (fun s : FrameState W => Since P old s.events) (bufCallLoop H buf idxs) := by
  induction idxs with
  | nil => exact Kept.ret _
  | cons idx rest ih =>
    have access : Kept (fun s : FrameState W => Since P old s.events) (accessBlock buf) := by
      unfold accessBlock
      split
      next u => exact observe_since (accesses u rfl)
      next => exact Kept.ret _
    refine Kept.bind (Kept.bind access fun _ => Kept.get_bind fun _ _ => Kept.ret _) fun c => ?_
    exact storeByte_since indices H _ _ ih

end Loop

/-- What the loop of `lunatik_buf_call` observes. -/
def OfLoop (buf : TValue) : Event W → Prop
  | .below _ _ => True
  | .access u => buf = .userdata u
  | _ => False

/-- The block is read if and only if there is something to read. -/
theorem bufCallLoop_events (H : Host W) (buf : TValue) (len : Nat) (s : FrameState W) : ∃ new,
    (stateAfter (bufCallLoop H buf (List.range len)) s).events = new ++ s.events ∧
      (∀ e ∈ new, OfLoop buf e) ∧ ∀ u, buf = .userdata u → (.access u ∈ new ↔ len ≠ 0) := by
  have loop (old : List (Event W)) (idxs : List Nat) :
      Kept (fun s : FrameState W => Since (OfLoop buf) old s.events) (bufCallLoop H buf idxs) :=
    bufCallLoop_since (fun _ _ => trivial) H (fun _ same => same) idxs
  by_cases empty : len = 0
  · rw [empty]
    exact ⟨[], rfl, by simp, fun u _ => by simp⟩
  obtain ⟨idx, rest, range⟩ := List.exists_cons_of_ne_nil (List.range_eq_nil.not.mpr empty)
  rw [range]
  cases buf with
  | userdata u =>
    have started : loadAt H (.userdata u) idx s = .ok (H.loadByte s.world (.userdata u) idx)
        { s with events := .access u :: s.events } := rfl
    rw [bufCallLoop, stateAfter_bind started]
    have since := storeByte_since (fun _ _ => trivial) H
      ((H.loadByte s.world (.userdata u) idx).toBitVec.signExtend 64)
      (BitVec.ofNat 32 (idx + 1)).toInt (loop (.access u :: s.events) rest)
    obtain ⟨new, events, kind⟩ := since.after (s := { s with events := .access u :: s.events }) (Since.refl _ _)
    refine ⟨new ++ [.access u], ?_, fun e member => ?_, ?_⟩
    · rw [events, List.append_assoc, List.singleton_append]
    · rcases List.mem_append.mp member with later | first
      · exact kind e later
      · rw [List.mem_singleton.mp first]
        exact rfl
    · rintro _ ⟨⟩
      simp [empty]
  | _ =>
    obtain ⟨new, events, kind⟩ := (loop s.events (idx :: rest)).after (Since.refl _ _)
    exact ⟨new, events, kind, nofun⟩

/-- With one collection, the block that is read after it is the one that the pointer goes into. -/
theorem one_collection_iff {buf : TValue} {new old : List (Event GlobalState)} {stack : Nat → TValue}
    {top : Nat} {g : GlobalState} (loop : ∀ e ∈ new, OfLoop buf e) (check : ∀ e ∈ old, OfCheck buf e)
    (taken : ∀ u, buf = .userdata u → .take u ∈ old) :
    SafeReads (new ++ .collect stack top g :: old) ↔
      ∀ u, buf = .userdata u → .access u ∈ new → Reachable stack top g (.userdata u) := by
  constructor
  · intro safe u pointer access
    exact safe new stack top g old u rfl access (taken u pointer)
  · intro reachable late stack' top' g' early u split access _
    have same : late = new ∧ Event.collect stack top g = .collect stack' top' g' := by
      rcases List.append_eq_append_iff.mp split with ⟨between, rfl, rest⟩ | ⟨between, rfl, rest⟩
      · cases between with
        | nil => exact ⟨List.append_nil _, (List.cons.inj rest).1⟩
        | cons e between =>
          have member : .collect stack' top' g' ∈ old := by
            rw [(List.cons.inj rest).2]
            exact List.mem_append_right _ List.mem_cons_self
          exact (check _ member).elim
      · cases between with
        | nil => exact ⟨(List.append_nil _).symm, (List.cons.inj rest).1.symm⟩
        | cons e between =>
          have member : .collect stack' top' g' ∈ late ++ e :: between := by
            rw [(List.cons.inj rest).1]
            exact List.mem_append_right _ List.mem_cons_self
          exact (loop _ member).elim
    obtain ⟨rfl, same⟩ := same
    cases same
    exact reachable u (loop _ access) access

/-- Only the slots below `n` count, where the open upvalues are below `n` too. -/
theorem reachable_congr {stack stack' : Nat → TValue} {top n : Nat} {g : GlobalState} {o : GCObject}
    (reachable : Reachable stack top g o) (le : top ≤ n) (same : ∀ j < n, stack' j = stack j)
    (upvals : ∀ id slot, g.heap.upvals id = .openAt slot → slot < n) : Reachable stack' top g o := by
  induction reachable with
  | root member => exact .root member
  | slot j low member => exact .slot j low (by rwa [same j (Nat.lt_of_lt_of_le low le)])
  | @child o o' _ member ih =>
    refine .child ih ?_
    cases o with
    | upval id =>
      rw [references] at member ⊢
      cases up : g.heap.upvals id with
      | openAt slot =>
        rw [up] at member
        dsimp only
        rwa [same slot (upvals id slot up)]
      | closed v => rwa [up] at member
    | table h => exact member
    | userdata u => exact member
    | function f => exact member

theorem reads_accepted {u : Nat} (reads : Reads other s u) : Accepted other s := by
  refine ⟨?_, reads.name⟩
  rw [reads.argument, heapHost_getmetatable_userdata]
  exact reads.metatable

theorem lunatikBufCall_safe_iff (called : Called s) :
    SafeReads (stateAfter (lunatikBufCall (heapHost other)) s).events ↔
      ∀ u, Reads other s u → Reachable s.stack (s.top - 1) s.world (.userdata u) := by
  obtain ⟨h, registry, plain⟩ := called.registry
  have check := luaLCheckudata_checked other registry plain (called_top called) (called_unread called)
    s rfl
  cases ran : Frame.luaLCheckudata (heapHost other).toRuntime 1 "buffer" s with
  | error e t =>
    rw [ran] at check
    have raised : lunatikBufCall (heapHost other) s = .error e t := bind_error ran
    rw [stateAfter, raised]
    exact ⟨fun _ u reads => (check.2 u reads.argument (reads_accepted reads)).elim, fun _ => check.1.safe⟩
  | ok buf t =>
    rw [ran] at check
    obtain ⟨checked, accepted⟩ := check
    obtain ⟨len, length, lengthEq⟩ := checked.luaObjlen_run other (called_top called)
    -- the state in which the table is asked for
    let nrec := (BitVec.ofNat 32 len).toInt
    let r : FrameState GlobalState :=
      { t with top := t.top - 1, events := .below 1 t.top :: .below 1 t.top :: t.events }
    have popped : luaPop 1 { t with events := .below 1 t.top :: t.events } = .ok ⟨⟩ r := rfl
    have asked : checkGC (heapHost other).toRuntime r = .ok ⟨⟩
        { r with events := .collect r.stack r.top r.world :: r.events, world := other.gcStep r.world } := rfl
    have world : r.world = s.world := checked.world
    have whole : stateAfter (lunatikBufCall (heapHost other)) s =
        stateAfter (do
          Frame.luaCreatetable (heapHost other).toRuntime nrec
          bufCallLoop (heapHost other) buf (List.range len)
          return 1 : FrameM GlobalState Nat) r := by
      rw [lunatikBufCall, stateAfter_bind ran, stateAfter_bind length, stateAfter_bind popped]
    rw [whole, Frame.luaCreatetable, bind_assoc, stateAfter_bind asked]
    have check : Since (OfCheck buf) [] r.events := by
      rw [← called.fresh]
      exact Since.cons (e := .below 1 t.top) (Since.cons (e := .below 1 t.top) checked.observed trivial) trivial
    obtain ⟨old, events, kind⟩ := check
    rw [List.append_nil] at events
    have taken (u : Nat) (pointer : buf = .userdata u) : .take u ∈ old := by
      rw [← events]
      exact List.mem_cons_of_mem _ (List.mem_cons_of_mem _ (checked.taken u pointer))
    let q : FrameState GlobalState :=
      { r with events := .collect r.stack r.top r.world :: old, world := other.gcStep r.world }
    rw [events, bind_assoc]
    change SafeReads (stateAfter _ q).events ↔ _
    have counted (u : Nat) (reads : Reads other s u) : buf = .userdata u ∧ len ≠ 0 ∧
        (other.createtable (other.gcStep s.world) nrec).isSome := by
      have pointer : buf = .userdata u := checked.value.symm.trans reads.argument
      have lenEq := lengthEq u pointer
      refine ⟨pointer, ?_, ?_⟩
      · rw [lenEq]
        exact List.length_eq_zero_iff.not.mpr reads.nonempty
      · have table := reads.table
        rwa [← lenEq] at table
    cases made : other.createtable (other.gcStep s.world) nrec with
    | none =>
      have refused : Frame.orRaise (fun w => (heapHost other).createtable w nrec) q = .error .error q :=
        orRaise_none (by rw [← made, ← world]; rfl)
      have safe : SafeReads ([] ++ .collect r.stack r.top r.world :: old) :=
        (one_collection_iff (by simp) kind taken).mpr fun _ _ access => by cases access
      rw [stateAfter, bind_error refused]
      refine ⟨fun _ u reads => ?_, fun _ => safe⟩
      have granted := (counted u reads).2.2
      rw [made] at granted
      cases granted
    | some result =>
      obtain ⟨table, w⟩ := result
      have granted : Frame.orRaise (fun w => (heapHost other).createtable w nrec) q =
          .ok table { q with world := w } := orRaise_ok (by rw [← made, ← world]; rfl)
      rw [stateAfter_bind granted]
      have pushed : Frame.push table { q with world := w } =
        .ok ⟨⟩ { q with world := w, stack := setAt q.stack q.top table, top := q.top + 1 } := rfl
      rw [stateAfter_bind pushed, stateAfter_bind_pure]
      obtain ⟨new, loopEvents, loop, reads_iff⟩ := bufCallLoop_events (heapHost other) buf len
        { q with world := w, stack := setAt q.stack q.top table, top := q.top + 1 }
      rw [loopEvents]
      refine (one_collection_iff loop kind taken).trans ?_
      have upvals : ∀ id slot, s.world.heap.upvals id = .openAt slot → slot < s.top := fun id slot up =>
        Nat.lt_of_lt_of_le (called.upvals id slot up) called.base_le
      have top : r.top = s.top - 1 := congrArg (· - 1) checked.top
      rw [world, top]
      constructor
      · intro reachable u reads
        obtain ⟨pointer, nonempty, -⟩ := counted u reads
        have found := reachable u pointer ((reads_iff u pointer).mpr nonempty)
        exact reachable_congr found (Nat.sub_le s.top 1) (fun j low => (checked.kept j low).symm) upvals
      · intro reachable u pointer access
        have nonempty := (reads_iff u pointer).mp access
        have argument : s.stack (s.top - 1) = .userdata u := checked.value.trans pointer
        have found := accepted.1
        rw [argument, heapHost_getmetatable_userdata] at found
        have lenEq := lengthEq u pointer
        have reads : Reads other s u := by
          refine ⟨argument, found, accepted.2, ?_, ?_⟩
          · rintro empty
            rw [empty] at lenEq
            exact nonempty lenEq
          · rw [← lenEq, show (BitVec.ofNat 32 len).toInt = nrec from rfl, made]
            rfl
        exact reachable_congr (reachable u reads) (Nat.sub_le s.top 1) checked.kept upvals

end Popped

/-- A buffer is safe under its reader, but for a buffer that is called: there, something else has to refer
to it. -/
theorem reads_safe_iff (other : Host GlobalState) (b : Binding) (reader : b.readsBuffer)
    {s : FrameState GlobalState} (called : Called s) :
    SafeReads (stateAfter (b.body (heapHost other)) s).events ↔
      (b = .bufCall → ∀ u, Reads other s u → Reachable s.stack (s.top - 1) s.world (.userdata u)) := by
  cases b with
  | bufCall =>
    refine (lunatikBufCall_safe_iff called).trans ⟨fun reachable _ => reachable, fun reachable => ?_⟩
    exact reachable rfl
  | sha1 => exact ⟨fun _ => nofun, fun _ => lunatikSha1_safe called⟩
  | getRandomBytes => exact ⟨fun _ => nofun, fun _ => lunatikGetRandomBytes_safe called⟩
  | _ => exact reader.elim

/-! ### A call of a buffer -/

/-- The userdata 0 is a buffer; the tables 0, 1 and 2 are the registry, the metatable of buffers and the
globals. -/
def bufferWorld : GlobalState where
  heap :=
    { emptyHeap with
      tables := fun h =>
        if h = 0 then ⟨[(.string (literal "buffer"), .table 1)], none, 0⟩
        else if h = 1 then
          ⟨[(.string (literal "__call"), .function addrBufCall),
            (.string (literal "__len"), .function addrBufLength),
            (.string (literal "__newindex"), .function addrBufNewindex),
            (.string (literal "__index"), .function addrBufIndex)], none, 0⟩
        else newTable
      closures := fun f => if f = 0 then .lua ⟨none, 0, 0, 0, 0, 2, 2, [], [], [], [], [], []⟩ [] 2 else .c f [] 2
      udata := fun _ => ⟨[0, 0, 0, 0], some 1⟩ }
  globals := .table 2
  registry := .table 0
  env := fun _ => 2
  tmudata := []

-- the last value is the argument
def callFrame (slots : List TValue) : FrameState GlobalState :=
  ⟨fun j => slots.getD j .nil, slots.length - 1, slots.length, bufferWorld, []⟩

/-- `local b = buffer.new(4)`, then `b()`, in the slots of a chunk. -/
theorem local_buffer_found : SafeReads (stateAfter (lunatikBufCall (heapHost emptyHost))
    (callFrame [.function 0, .userdata 0, .function addrBufCall, .userdata 0])).events := by
  refine (reads_safe_iff emptyHost .bufCall trivial ⟨?_, ?_, rfl, ⟨0, rfl, rfl⟩, ?_⟩).mpr fun _ u reads => ?_
  · decide
  · decide
  · rintro id slot ⟨⟩
    decide
  · have argument : TValue.userdata 0 = .userdata u := reads.argument
    cases argument
    exact .slot 1 (by decide) (List.mem_singleton_self _)

-- nothing refers to the buffer 0
theorem bufferWorld_references {stack : Nat → TValue} (main : stack 0 = .function 0) (o : GCObject) :
    GCObject.userdata 0 ∉ references stack bufferWorld o := by
  cases o with
  | table h =>
    by_cases isRegistry : h = 0
    · simp [references, traversetable, markmetatable, weakMode, fasttm, markvalue, bufferWorld, isRegistry]
    by_cases isMetatable : h = 1
    · simp [references, traversetable, markmetatable, weakMode, fasttm, markvalue, bufferWorld, isMetatable]
    · simp [references, traversetable, markmetatable, newTable, bufferWorld, isRegistry, isMetatable]
  | userdata u => simp [references, markmetatable, bufferWorld]
  | function f =>
    by_cases isMain : f = 0
    · simp [references, traverseclosure, bufferWorld, isMain]
    · simp [references, traverseclosure, bufferWorld, isMain]
  | upval id =>
    have reference : references stack bufferWorld (.upval id) = markvalue (stack 0) := rfl
    rw [reference, main]
    simp [markvalue]

/-- `buffer.new(4)()`: the call has the only reference, and pops it. -/
theorem temporary_buffer_lost : ¬ SafeReads (stateAfter (lunatikBufCall (heapHost emptyHost))
    (callFrame [.function 0, .function addrBufCall, .userdata 0])).events := by
  let s := callFrame [.function 0, .function addrBufCall, .userdata 0]
  have called : Called s := by
    refine ⟨by decide, by decide, rfl, ⟨0, rfl, rfl⟩, ?_⟩
    rintro id slot ⟨⟩
    decide
  have reads : Reads emptyHost s 0 := by
    refine ⟨rfl, ?_, rfl, nofun, rfl⟩
    decide +kernel
  have lost {o : GCObject} (reachable : Reachable s.stack 2 bufferWorld o) : o ≠ .userdata 0 := by
    cases reachable with
    | root member =>
      rintro rfl
      simp [markroot, marktmu, markmt, markvalue, markmetatable, bufferWorld, emptyHeap] at member
    | slot j low member =>
      rintro rfl
      match j, low with
      | 0, _ => simp [s, callFrame, markvalue] at member
      | 1, _ => simp [s, callFrame, markvalue] at member
    | child _ member =>
      rintro rfl
      exact bufferWorld_references rfl _ member
  intro safe
  exact lost ((lunatikBufCall_safe_iff called).mp safe 0 reads) rfl

end Lunatik.Verified
