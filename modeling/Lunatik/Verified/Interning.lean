import Lunatik.Lua.StringTable

/-! # Strings are interned

The invariant of the string table over all interleavings of string creation, resizing and
collection.  The chains are read as one list, `chained`: relinking permutes it, sweeping takes a
sublist of it, and a new string is put in front of it, so that each operation needs one fact
about lists.
-/

namespace Lunatik.Verified

open Lunatik.Library Lunatik.Lua Lunatik.Lua.StringTable

/-! ## The invariant -/

-- never both whites
def OneWhite (marked : BitVec 8) : Prop := marked &&& whitebits ≠ whitebits

instance (marked : BitVec 8) : Decidable (OneWhite marked) := inferInstanceAs (Decidable (_ ≠ _))

/-- Every chain holds strings of its own bucket only. -/
def Placed (strings : Nat → TString) (hash : List (List Nat)) : Prop :=
  ∀ b chain, hash[b]? = some chain → ∀ ts ∈ chain, lmod (strings ts).hash hash.length = b

structure Interned (g : StringTable) : Prop where
  size : ∃ k, g.hash.length = 2 ^ k
  placed : Placed g.strings g.hash
  hashed : ∀ ts ∈ g.chained, (g.strings ts).hash = hashOf (g.bytesOf ts)
  distinct : (g.chained.map g.bytesOf).Nodup
  counted : g.nuse = BitVec.ofNat 32 g.chained.length
  allocated : ∀ ts ∈ g.chained, ts < g.next
  white : g.currentwhite = 0b100001 ∨ g.currentwhite = 0b100010
  marks : ∀ ts ∈ g.chained, OneWhite (g.strings ts).marked
  sweeping : g.gcstate = .sweepstring → g.sweepstrgc < g.size

theorem placed_replicate (strings : Nat → TString) (size : Nat) :
    Placed strings (List.replicate size []) := by
  intro b chain found ts inChain
  have : chain = [] := List.eq_of_mem_replicate (List.mem_of_getElem? found)
  simp [this] at inChain

theorem interned_fresh : Interned .fresh where
  size := ⟨5, rfl⟩
  placed := placed_replicate _ _
  hashed := by decide
  distinct := by decide
  counted := rfl
  allocated := by decide
  white := .inl rfl
  marks := by decide
  sweeping := by decide

/-! ## Buckets -/

theorem lmod_two_pow (h : BitVec 32) (k : Nat) : lmod h (2 ^ k) = h.toNat % 2 ^ k :=
  Nat.and_two_pow_sub_one_eq_mod _ _

theorem lmod_lt (h : BitVec 32) (k : Nat) : lmod h (2 ^ k) < 2 ^ k := by
  rw [lmod_two_pow]
  exact Nat.mod_lt _ (Nat.two_pow_pos k)

theorem flatten_modify_cons {b : Nat} {hash : List (List Nat)} (ts : Nat)
    (inside : b < hash.length) :
    (hash.modify b (ts :: ·)).flatten.Perm (ts :: hash.flatten) := by
  obtain ⟨before, chain, after, split, -, modified⟩ := List.exists_of_modify (ts :: ·) inside
  rw [modified, split]
  simp only [List.flatten_append, List.flatten_cons, List.cons_append]
  exact List.perm_middle

theorem Placed.modify_cons {strings : Nat → TString} {hash : List (List Nat)}
    (placed : Placed strings hash) (ts : Nat) :
    Placed strings (hash.modify (lmod (strings ts).hash hash.length) (ts :: ·)) := by
  intro b chain found i inChain
  rw [List.getElem?_modify] at found
  rw [List.length_modify]
  cases old : hash[b]? with
  | none => simp [old] at found
  | some oldChain =>
    simp only [old, Option.map_eq_map, Option.map_some, Option.some.injEq] at found
    subst found
    split at inChain
    · rename_i here
      cases List.mem_cons.mp inChain with
      | inl same => rw [same, here]
      | inr more => exact placed b oldChain old i more
    · exact placed b oldChain old i inChain

theorem Placed.mono {strings strings' : Nat → TString} {hash : List (List Nat)}
    (placed : Placed strings hash) (same : ∀ ts ∈ hash.flatten,
      (strings' ts).hash = (strings ts).hash) :
    Placed strings' hash := by
  intro b chain found ts inChain
  have inTable : ts ∈ hash.flatten :=
    List.mem_flatten.mpr ⟨chain, List.mem_of_getElem? found, inChain⟩
  rw [same ts inTable]
  exact placed b chain found ts inChain

theorem Placed.set {strings : Nat → TString} {hash : List (List Nat)} {b : Nat}
    {chain kept : List Nat} (placed : Placed strings hash) (found : hash[b]? = some chain)
    (sub : kept.Sublist chain) :
    Placed strings (hash.set b kept) := by
  intro c chain' found' ts inChain
  rw [List.length_set]
  by_cases here : b = c
  · subst here
    have inside : b < hash.length := (List.getElem?_eq_some_iff.mp found).1
    rw [List.getElem?_set_self inside, Option.some.injEq] at found'
    exact placed b chain found ts (sub.subset (found' ▸ inChain))
  · rw [List.getElem?_set_ne here] at found'
    exact placed c chain' found' ts inChain

namespace Interned

variable {g : StringTable}

theorem nodup (inv : Interned g) : g.chained.Nodup := List.Nodup.of_map _ inv.distinct

theorem bytes_inj (inv : Interned g) {a b : Nat} (ha : a ∈ g.chained) (hb : b ∈ g.chained) :
    g.bytesOf a = g.bytesOf b ↔ a = b :=
  ⟨fun same => List.inj_on_of_nodup_map inv.distinct ha hb same, fun same => same ▸ rfl⟩

/-- A string is found in the bucket of its bytes. -/
theorem mem_bucket (inv : Interned g) {ts : Nat} (chained : ts ∈ g.chained) :
    ts ∈ g.hash.getD (lmod (hashOf (g.bytesOf ts)) g.size) [] := by
  obtain ⟨chain, inTable, inChain⟩ := List.mem_flatten.mp chained
  obtain ⟨b, found⟩ := List.mem_iff_getElem?.mp inTable
  have here := inv.placed b chain found ts inChain
  rw [inv.hashed ts chained] at here
  rw [StringTable.size, here, List.getD_eq_getElem?_getD, found]
  exact inChain

theorem of_bucket {b ts : Nat} (inChain : ts ∈ g.hash.getD b []) : ts ∈ g.chained := by
  rw [List.getD_eq_getElem?_getD] at inChain
  cases found : g.hash[b]? with
  | none => simp [found] at inChain
  | some chain =>
    rw [found] at inChain
    exact List.mem_flatten.mpr ⟨chain, List.mem_of_getElem? found, inChain⟩

end Interned

/-! ## Marks -/

section
variable (g : StringTable) (ts : Nat) (f : BitVec 8 → BitVec 8)

@[simp] theorem remark_bytesOf : (g.remark ts f).bytesOf = g.bytesOf := by
  funext i
  simp only [bytesOf, remark]
  split <;> rfl

@[simp] theorem remark_hash (i : Nat) : ((g.remark ts f).strings i).hash = (g.strings i).hash := by
  simp only [remark]
  split <;> rfl

@[simp] theorem remark_otherwhite : (g.remark ts f).otherwhite = g.otherwhite := rfl

@[simp] theorem remark_chained : (g.remark ts f).chained = g.chained := rfl

theorem remark_marked (i : Nat) :
    ((g.remark ts f).strings i).marked = if i = ts then
      f (g.strings i).marked else (g.strings i).marked := by
  simp only [remark]
  split <;> rfl

end

theorem Interned.remark {g : StringTable} (inv : Interned g) (ts : Nat) {f : BitVec 8 → BitVec 8}
    (keeps : OneWhite (g.strings ts).marked → OneWhite (f (g.strings ts).marked)) :
    Interned (g.remark ts f) where
  size := inv.size
  placed := inv.placed.mono fun i _ => remark_hash g ts f i
  hashed := by
    intro i chained
    rw [remark_hash, remark_bytesOf]
    exact inv.hashed i chained
  distinct := by
    rw [remark_bytesOf]
    exact inv.distinct
  counted := inv.counted
  allocated := inv.allocated
  white := inv.white
  marks := by
    intro i chained
    have old := inv.marks i chained
    rw [remark_marked]
    split
    · rename_i same
      subst same
      exact keeps old
    · exact old
  sweeping := inv.sweeping

theorem oneWhite_stringmark (marked : BitVec 8) :
    OneWhite marked → OneWhite (marked &&& ~~~whitebits) := by
  revert marked
  decide

theorem oneWhite_fix (marked : BitVec 8) : OneWhite marked → OneWhite (marked ||| fixedbit) := by
  revert marked
  decide

/-! ## Resizing -/

section
variable (g : StringTable) {k : Nat} {newhash : List (List Nat)}

theorem relink_length (newsize ts : Nat) : (g.relink newsize newhash ts).length = newhash.length :=
  List.length_modify _ _ _

theorem foldl_relink (chain : List Nat) (length : newhash.length = 2 ^ k)
    (placed : Placed g.strings newhash) :
    (chain.foldl (g.relink (2 ^ k)) newhash).length = 2 ^ k ∧
      Placed g.strings (chain.foldl (g.relink (2 ^ k)) newhash) ∧
      (chain.foldl (g.relink (2 ^ k)) newhash).flatten.Perm (chain ++ newhash.flatten) := by
  induction chain generalizing newhash with
  | nil => exact ⟨length, placed, .refl _⟩
  | cons ts rest ih =>
    have inside : lmod (g.strings ts).hash (2 ^ k) < newhash.length := by
      rw [length]
      exact lmod_lt _ k
    have placed' : Placed g.strings (g.relink (2 ^ k) newhash ts) := by
      have := placed.modify_cons ts
      rwa [length] at this
    obtain ⟨length', placedAll, perm⟩ := ih ((relink_length g _ ts).trans length) placed'
    have perm' : (rest ++ (g.relink (2 ^ k) newhash ts).flatten).Perm
      (ts :: rest ++ newhash.flatten) :=
      ((flatten_modify_cons ts inside).append_left rest).trans List.perm_middle
    exact ⟨length', placedAll, perm.trans perm'⟩

end

/-- A resize only permutes the strings. -/
theorem luaSResize_frame (g : StringTable) (k : Nat) (granted : Bool) :
    (g.luaSResize (2 ^ k) granted).2.strings = g.strings ∧
      (g.luaSResize (2 ^ k) granted).2.currentwhite = g.currentwhite ∧
      (g.luaSResize (2 ^ k) granted).2.chained.Perm g.chained := by
  unfold StringTable.luaSResize
  split
  · exact ⟨rfl, rfl, .refl _⟩
  cases granted with
  | false => exact ⟨rfl, rfl, .refl _⟩
  | true =>
    simp only [↓reduceIte, ← List.foldl_flatten]
    obtain ⟨-, -, perm⟩ :=
      foldl_relink g g.hash.flatten List.length_replicate (placed_replicate g.strings (2 ^ k))
    rw [List.flatten_replicate_nil, List.append_nil] at perm
    exact ⟨trivial, trivial, perm⟩

theorem Interned.luaSResize {g : StringTable} (inv : Interned g) (k : Nat) (granted : Bool) :
    Interned (g.luaSResize (2 ^ k) granted).2 := by
  unfold StringTable.luaSResize
  split
  · exact inv
  rename_i notSweeping
  cases granted with
  | false => exact inv
  | true =>
    simp only [↓reduceIte, ← List.foldl_flatten]
    obtain ⟨length, placed, perm⟩ :=
      foldl_relink g g.hash.flatten List.length_replicate (placed_replicate g.strings (2 ^ k))
    rw [List.flatten_replicate_nil, List.append_nil] at perm
    exact
      { size := ⟨k, length⟩
        placed := placed
        hashed := fun ts chained => inv.hashed ts (perm.mem_iff.mp chained)
        distinct := (perm.map g.bytesOf).nodup_iff.mpr inv.distinct
        counted := inv.counted.trans (congrArg _ perm.length_eq.symm)
        allocated := fun ts chained => inv.allocated ts (perm.mem_iff.mp chained)
        white := inv.white
        marks := fun ts chained => inv.marks ts (perm.mem_iff.mp chained)
        sweeping := fun sweeping => absurd sweeping notSweeping }

/-! ## Creating a string -/

section
variable {g : StringTable} (inv : Interned g) {str : List UInt8}
include inv

variable (str) in
theorem link_chained (h : BitVec 32) : (g.link str h).chained.Perm (g.next :: g.chained) := by
  obtain ⟨k, length⟩ := inv.size
  have inside : lmod h g.size < g.hash.length := by
    rw [StringTable.size, length]
    exact lmod_lt h k
  exact flatten_modify_cons g.next inside

theorem link_strings_old (h : BitVec 32) {ts : Nat} (chained : ts ∈ g.chained) :
    (g.link str h).strings ts = g.strings ts := by
  have older : ts ≠ g.next := (inv.allocated ts chained).ne
  simp [StringTable.link, older]

omit inv in
theorem link_strings_new (h : BitVec 32) : (g.link str h).strings g.next =
    ⟨str, h, g.luaCWhite⟩ := by
  simp [StringTable.link]

theorem oneWhite_luaCWhite : OneWhite g.luaCWhite := by
  unfold StringTable.luaCWhite
  cases inv.white with
  | inl white => rw [white]; decide
  | inr white => rw [white]; decide

theorem Interned.link (absent : ∀ ts ∈ g.chained, g.bytesOf ts ≠ str) :
    Interned (g.link str (hashOf str)) := by
  have perm := link_chained inv str (hashOf str)
  have cases_mem : ∀ ts ∈ (g.link str (hashOf str)).chained, ts = g.next ∨ ts ∈ g.chained := by
    intro ts chained
    exact List.mem_cons.mp (perm.mem_iff.mp chained)
  have newBytes : (g.link str (hashOf str)).bytesOf g.next = str := by
    rw [bytesOf, link_strings_new]
  have oldBytes : ∀ ts ∈ g.chained, (g.link str (hashOf str)).bytesOf ts = g.bytesOf ts := by
    intro ts chained
    rw [bytesOf, link_strings_old inv _ chained, bytesOf]
  have newHash : ((g.link str (hashOf str)).strings g.next).hash = hashOf str := by
    rw [link_strings_new]
  refine ⟨?size, ?placed, ?hashed, ?distinct, ?counted, ?allocated, inv.white, ?marks, ?sweeping⟩
  case size =>
    obtain ⟨k, length⟩ := inv.size
    exact ⟨k, (List.length_modify _ _ _).trans length⟩
  case placed =>
    have placed : Placed (g.link str (hashOf str)).strings g.hash :=
      inv.placed.mono fun ts chained => by rw [link_strings_old inv _ chained]
    have relinked := placed.modify_cons g.next
    rwa [newHash] at relinked
  case hashed =>
    intro ts chained
    cases cases_mem ts chained with
    | inl new => rw [new, newHash, newBytes]
    | inr old =>
      rw [oldBytes ts old, link_strings_old inv _ old]
      exact inv.hashed ts old
  case distinct =>
    refine (perm.map _).nodup_iff.mpr ?_
    rw [List.map_cons, newBytes, List.map_congr_left oldBytes]
    refine List.nodup_cons.mpr ⟨fun found => ?_, inv.distinct⟩
    obtain ⟨ts, chained, same⟩ := List.mem_map.mp found
    exact absent ts chained same
  case counted =>
    rw [perm.length_eq, List.length_cons]
    show g.nuse + 1 = _
    rw [inv.counted, BitVec.ofNat_add]
    rfl
  case allocated =>
    intro ts chained
    cases cases_mem ts chained with
    | inl new => exact new ▸ Nat.lt_succ_self _
    | inr old => exact Nat.lt_succ_of_lt (inv.allocated ts old)
  case marks =>
    intro ts chained
    cases cases_mem ts chained with
    | inl new =>
      rw [new, link_strings_new]
      exact oneWhite_luaCWhite inv
    | inr old =>
      rw [link_strings_old inv _ old]
      exact inv.marks ts old
  case sweeping =>
    intro sweeping
    have := inv.sweeping sweeping
    rwa [StringTable.size, show (g.link str (hashOf str)).hash.length =
      g.hash.length from List.length_modify _ _ _]

/-- What `newlstr` makes of a string that is not in the table. -/
theorem newlstr_spec (absent : ∀ ts ∈ g.chained, g.bytesOf ts ≠ str) (granted : Granted) :
    Interned (g.newlstr str (hashOf str) granted).2 ∧
      ∀ ts, (g.newlstr str (hashOf str) granted).1 = .returned ts →
        ts = g.next ∧ (g.newlstr str (hashOf str) granted).2.chained.Perm (g.next :: g.chained) ∧
          (g.newlstr str (hashOf str) granted).2.strings = (g.link str (hashOf str)).strings ∧
          (g.newlstr str (hashOf str) granted).2.currentwhite = g.currentwhite := by
  have linked := inv.link absent
  have inTable := link_chained inv str (hashOf str)
  unfold StringTable.newlstr
  split
  · exact ⟨inv, by simp⟩
  split
  · dsimp only
    split
    · obtain ⟨k, length⟩ := linked.size
      have doubled : (g.link str (hashOf str)).size * 2 = 2 ^ (k + 1) := by
        rw [StringTable.size, length, Nat.pow_succ]
      rw [doubled]
      have resized := linked.luaSResize (k + 1) granted.table
      obtain ⟨strings, white, perm⟩ :=
        luaSResize_frame (g.link str (hashOf str)) (k + 1) granted.table
      split
      · rename_i eq
        rw [eq] at resized strings white perm
        refine ⟨resized, fun ts returned => ?_⟩
        have same : g.next = ts := by simpa using returned
        exact ⟨same.symm, perm.trans inTable, strings, white⟩
      · rename_i eq
        rw [eq] at resized
        exact ⟨resized, by simp⟩
    · refine ⟨linked, fun ts returned => ?_⟩
      have same : g.next = ts := by simpa using returned
      exact ⟨same.symm, inTable, rfl, rfl⟩
  · exact ⟨inv, by simp⟩

end

/-! ## Finding a string -/

section
variable {g : StringTable} (inv : Interned g) (str : List UInt8)
include inv

omit inv in
theorem find_some {ts : Nat}
    (found : (g.hash.getD (lmod (hashOf str) g.size) []).find? (fun o => g.bytesOf o == str) =
      some ts) :
    ts ∈ g.chained ∧ g.bytesOf ts = str := by
  have inChain := List.mem_of_find?_eq_some found
  have same := List.find?_some found
  exact ⟨Interned.of_bucket inChain, by simpa using same⟩

theorem find_none
    (missing : (g.hash.getD (lmod (hashOf str) g.size) []).find? (fun o => g.bytesOf o == str) =
      none) :
    ∀ ts ∈ g.chained, g.bytesOf ts ≠ str := by
  intro ts chained same
  have inChain := inv.mem_bucket chained
  rw [same] at inChain
  have := List.find?_eq_none.mp missing ts inChain
  simp [same] at this

theorem revived_alive {marked : BitVec 8} (oneWhite : OneWhite marked)
    (dead : marked &&& g.otherwhite &&& whitebits ≠ 0) :
    (marked ^^^ whitebits) &&& g.otherwhite &&& whitebits = 0 := by
  revert marked
  unfold StringTable.otherwhite
  cases inv.white with
  | inl white => rw [white]; decide
  | inr white => rw [white]; decide

theorem oneWhite_changewhite {marked : BitVec 8} (oneWhite : OneWhite marked)
    (dead : marked &&& g.otherwhite &&& whitebits ≠ 0) : OneWhite (marked ^^^ whitebits) := by
  revert marked
  unfold StringTable.otherwhite
  cases inv.white with
  | inl white => rw [white]; decide
  | inr white => rw [white]; decide

theorem changewhite_alive {ts : Nat} (chained : ts ∈ g.chained) (dead : g.isdead ts = true) :
    (g.changewhite ts).isdead ts = false ∧ Interned (g.changewhite ts) := by
  have oneWhite := inv.marks ts chained
  have dead' : (g.strings ts).marked &&& g.otherwhite &&& whitebits ≠ 0 := by
    simpa [StringTable.isdead] using dead
  constructor
  · have alive := revived_alive inv oneWhite dead'
    simpa [StringTable.isdead, StringTable.changewhite, remark_marked] using alive
  · exact inv.remark ts fun _ => oneWhite_changewhite inv oneWhite dead'

/-- What a caller of `luaS_newlstr` may rely on. -/
structure Interns (g : StringTable) (str : List UInt8) (granted : Granted) : Prop where
  existing : (∃ ts ∈ g.chained, g.bytesOf ts = str) ↔
    ∃ ts ∈ g.chained, (g.luaSNewlstr str granted).1 = .returned ts
  chained : ∀ ts, (g.luaSNewlstr str granted).1 = .returned ts →
    ts ∈ (g.luaSNewlstr str granted).2.chained
  bytes : ∀ ts, (g.luaSNewlstr str granted).1 = .returned ts →
    (g.luaSNewlstr str granted).2.bytesOf ts = str
  alive : ∀ ts, (g.luaSNewlstr str granted).1 = .returned ts →
    (g.luaSNewlstr str granted).2.isdead ts = false

theorem luaSNewlstr_spec (granted : Granted) :
    Interned (g.luaSNewlstr str granted).2 ∧ Interns g str granted := by
  cases found : (g.hash.getD (lmod (hashOf str) g.size) []).find? (fun o => g.bytesOf o == str) with
  | some ts =>
    obtain ⟨chained, same⟩ := find_some str found
    have eq : g.luaSNewlstr str granted = (.returned ts, if g.isdead ts then
        g.changewhite ts else g) := by
      simp only [StringTable.luaSNewlstr, found]
    have revived : Interned (g.luaSNewlstr str granted).2 ∧
      ts ∈ (g.luaSNewlstr str granted).2.chained ∧
        (g.luaSNewlstr str granted).2.bytesOf ts = str ∧
            (g.luaSNewlstr str granted).2.isdead ts = false := by
      rw [eq]
      cases dead : g.isdead ts with
      | false => exact ⟨inv, chained, same, dead⟩
      | true =>
        obtain ⟨alive, inv'⟩ := changewhite_alive inv chained dead
        have same' : (g.changewhite ts).bytesOf ts = str := by
          rw [StringTable.changewhite, remark_bytesOf]
          exact same
        exact ⟨inv', chained, same', alive⟩
    have only : ∀ i, (g.luaSNewlstr str granted).1 = .returned i → i = ts := by
      intro i returned
      rw [eq] at returned
      simpa using returned.symm
    refine ⟨revived.1, ⟨?_, ?_, ?_, ?_⟩⟩
    · exact ⟨fun _ => ⟨ts, chained, by rw [eq]⟩, fun _ => ⟨ts, chained, same⟩⟩
    · exact fun i returned => only i returned ▸ revived.2.1
    · exact fun i returned => only i returned ▸ revived.2.2.1
    · exact fun i returned => only i returned ▸ revived.2.2.2
  | none =>
    have absent := find_none inv str found
    have eq : g.luaSNewlstr str granted = g.newlstr str (hashOf str) granted := by
      simp only [StringTable.luaSNewlstr, found]
    obtain ⟨inv', spec⟩ := newlstr_spec inv absent granted
    rw [← eq] at inv' spec
    refine ⟨inv', ⟨?_, ?_, ?_, ?_⟩⟩
    · constructor
      · rintro ⟨ts, chained, same⟩
        exact absurd same (absent ts chained)
      · rintro ⟨ts, chained, returned⟩
        exact absurd (inv.allocated ts chained) (by rw [(spec ts returned).1]; exact lt_irrefl _)
    · intro ts returned
      obtain ⟨new, perm, -⟩ := spec ts returned
      exact perm.mem_iff.mpr (new ▸ List.mem_cons_self)
    · intro ts returned
      obtain ⟨rfl, -, strings, -⟩ := spec ts returned
      rw [bytesOf, strings, link_strings_new]
    · intro ts returned
      obtain ⟨rfl, -, strings, white⟩ := spec _ returned
      simp only [StringTable.isdead, StringTable.otherwhite, strings, white, link_strings_new,
        StringTable.luaCWhite]
      cases inv.white with
      | inl white => rw [white]; rfl
      | inr white => rw [white]; rfl

end

/-! ## Sweeping a bucket -/

/-- What a sweep leaves of a chain and of the table. -/
structure Swept (g g' : StringTable) (chain kept : List Nat) : Prop where
  sub : kept.Sublist chain
  bytes : g'.bytesOf = g.bytesOf
  hash : ∀ ts, (g'.strings ts).hash = (g.strings ts).hash
  marks : ∀ ts, OneWhite (g.strings ts).marked → OneWhite (g'.strings ts).marked
  nuse : g'.nuse + BitVec.ofNat 32 chain.length = g.nuse + BitVec.ofNat 32 kept.length
  white : g'.currentwhite = g.currentwhite
  next : g'.next = g.next

theorem oneWhite_makewhite {g : StringTable} (white : g.currentwhite = 0b100001 ∨
    g.currentwhite = 0b100010)
    (marked : BitVec 8) : OneWhite ((marked &&& ~~~(blackbit ||| whitebits)) ||| g.luaCWhite) := by
  revert marked
  unfold StringTable.luaCWhite
  cases white with
  | inl white => rw [white]; decide
  | inr white => rw [white]; decide

-- the counter wraps, and both sides wrap alike
theorem count_freed {nuse nuse' kept : BitVec 32} {n : Nat}
    (counted : nuse' + BitVec.ofNat 32 n = nuse - 1 + kept) :
    nuse' + BitVec.ofNat 32 (n + 1) = nuse + kept := by
  bv_omega

theorem count_left {nuse : BitVec 32} {all chain kept left : Nat}
    (counted : nuse + BitVec.ofNat 32 chain = BitVec.ofNat 32 all + BitVec.ofNat 32 kept)
    (total : all + kept = left + chain) : nuse = BitVec.ofNat 32 left := by
  bv_omega

theorem sweepwholelist_swept {g : StringTable}
    (white : g.currentwhite = 0b100001 ∨ g.currentwhite = 0b100010) (chain : List Nat) :
    Swept g (g.sweepwholelist chain).2 chain (g.sweepwholelist chain).1 := by
  induction chain generalizing g with
  | nil => exact ⟨.slnil, rfl, fun _ => rfl, fun _ => id, rfl, rfl, rfl⟩
  | cons curr rest ih =>
    rw [StringTable.sweepwholelist]
    split
    · have swept := ih (g := g.makewhite curr) white
      refine ⟨swept.sub.cons_cons curr, ?_, ?_, ?_, ?_, swept.white, swept.next⟩
      · exact swept.bytes.trans (remark_bytesOf g curr _)
      · exact fun ts => (swept.hash ts).trans (remark_hash g curr _ ts)
      · intro ts old
        refine swept.marks ts ?_
        rw [StringTable.makewhite, remark_marked]
        split
        · exact oneWhite_makewhite white _
        · exact old
      · have nuse := swept.nuse
        simp only [List.length_cons, BitVec.ofNat_add, ← BitVec.add_assoc]
        rw [nuse]
        rfl
    · have swept := ih (g := { g with nuse := g.nuse - 1 }) white
      refine ⟨swept.sub.cons curr, swept.bytes, swept.hash, swept.marks, ?_,
        swept.white, swept.next⟩
      exact count_freed swept.nuse

/-! ## Steps and runs -/

theorem Interned.sweepBucket {g : StringTable} (inv : Interned g)
    (sweeping : g.gcstate = .sweepstring) :
    Interned g.sweepBucket := by
  have inside : g.sweepstrgc < g.hash.length := inv.sweeping sweeping
  have swept := sweepwholelist_swept inv.white (g.hash.getD g.sweepstrgc [])
  unfold StringTable.sweepBucket
  generalize g.sweepwholelist (g.hash.getD g.sweepstrgc []) = result at swept
  obtain ⟨kept, g'⟩ := result
  dsimp only at swept ⊢
  have found : g.hash[g.sweepstrgc]? = some (g.hash.getD g.sweepstrgc []) := by
    rw [List.getD_eq_getElem _ _ inside, List.getElem?_eq_getElem inside]
  obtain ⟨before, after, split, replaced⟩ : ∃ before after,
      g.hash = before ++ g.hash.getD g.sweepstrgc [] :: after ∧
        g.hash.set g.sweepstrgc kept = before ++ kept :: after := by
    obtain ⟨before, after, split, -, replaced⟩ := List.exists_of_set inside
    rw [← List.getD_eq_getElem _ [] inside] at split
    exact ⟨before, after, split, replaced⟩
  have sub : (g.hash.set g.sweepstrgc kept).flatten.Sublist g.hash.flatten := by
    rw [replaced]
    conv => rhs; rw [split]
    simp only [List.flatten_append, List.flatten_cons]
    exact .append (.refl _) (.append swept.sub (.refl _))
  refine ⟨?size, ?placed, ?hashed, ?distinct, ?counted, ?allocated, ?white, ?marks, ?sweeping⟩
  case size =>
    obtain ⟨k, length⟩ := inv.size
    exact ⟨k, (List.length_set).trans length⟩
  case placed => exact (inv.placed.set found swept.sub).mono fun ts _ => swept.hash ts
  case hashed =>
    intro ts chained
    show (g'.strings ts).hash = hashOf (g'.bytesOf ts)
    rw [swept.hash, swept.bytes]
    exact inv.hashed ts (sub.subset chained)
  case distinct =>
    show ((g.hash.set g.sweepstrgc kept).flatten.map g'.bytesOf).Nodup
    rw [swept.bytes]
    exact inv.distinct.sublist (sub.map _)
  case counted =>
    have total : g.hash.flatten.length + kept.length =
        (g.hash.set g.sweepstrgc kept).flatten.length + (g.hash.getD g.sweepstrgc []).length := by
      rw [replaced]
      conv => lhs; rw [split]
      simp only [List.flatten_append, List.flatten_cons, List.length_append]
      omega
    exact count_left (inv.counted ▸ swept.nuse) total
  case allocated =>
    intro ts chained
    show ts < g'.next
    rw [swept.next]
    exact inv.allocated ts (sub.subset chained)
  case white =>
    show g'.currentwhite = _ ∨ g'.currentwhite = _
    rw [swept.white]
    exact inv.white
  case marks => exact fun ts chained => swept.marks ts (inv.marks ts (sub.subset chained))
  case sweeping =>
    intro still
    show g.sweepstrgc + 1 < (g.hash.set g.sweepstrgc kept).length
    rw [List.length_set]
    by_contra beyond
    have : g.size ≤ g.sweepstrgc + 1 := Nat.le_of_not_lt beyond
    simp [this] at still

theorem Interned.checkSizes {g : StringTable} (inv : Interned g) (granted : Bool) :
    Interned (g.checkSizes granted).2 := by
  unfold StringTable.checkSizes
  split
  · rename_i big
    obtain ⟨k, length⟩ := inv.size
    have large : 64 < 2 ^ k := length ▸ big.2
    have positive : k ≠ 0 := by
      intro zero
      simp [zero] at large
    obtain ⟨j, rfl⟩ := Nat.exists_eq_succ_of_ne_zero positive
    have half : g.size / 2 = 2 ^ j := by
      rw [StringTable.size, length, Nat.pow_succ, Nat.mul_div_cancel _ (by decide)]
    rw [half]
    exact inv.luaSResize j granted
  · exact inv

theorem Interned.phase {g : StringTable} (inv : Interned g) {gcstate : GCState}
    (other : gcstate ≠ .sweepstring) :
    Interned { g with gcstate } :=
  ⟨inv.size, inv.placed, inv.hashed, inv.distinct, inv.counted, inv.allocated, inv.white, inv.marks,
    fun sweeping => absurd sweeping other⟩

/-- Entering the phase that sweeps strings, with either white. -/
theorem Interned.startSweep {g : StringTable} (inv : Interned g) {currentwhite : BitVec 8}
    (white : currentwhite = 0b100001 ∨ currentwhite = 0b100010) :
    Interned { g with currentwhite, sweepstrgc := 0, gcstate := .sweepstring } := by
  refine ⟨inv.size, inv.placed, inv.hashed, inv.distinct, inv.counted, inv.allocated, white,
    inv.marks, fun _ => ?_⟩
  obtain ⟨k, length⟩ := inv.size
  show 0 < g.hash.length
  rw [length]
  exact Nat.two_pow_pos k

theorem Interned.singlestep {g : StringTable} (inv : Interned g) (finished granted : Bool) :
    Interned (g.singlestep finished granted) := by
  unfold StringTable.singlestep
  cases phase : g.gcstate with
  | pause => exact inv.phase (by decide)
  | propagate =>
    have flipped : g.otherwhite = 0b100001 ∨ g.otherwhite = 0b100010 := by
      unfold StringTable.otherwhite
      cases inv.white with
      | inl white => rw [white]; decide
      | inr white => rw [white]; decide
    cases finished with
    | false => exact inv
    | true => exact inv.startSweep flipped
  | sweepstring => exact inv.sweepBucket phase
  | sweep =>
    cases finished with
    | false => exact inv
    | true =>
      have checked := inv.checkSizes granted
      dsimp only [↓reduceIte]
      generalize g.checkSizes granted = result at checked
      obtain ⟨returned, g'⟩ := result
      cases returned with
      | false => exact checked
      | true => exact checked.phase (by decide)
  | finalize =>
    cases finished with
    | false => exact inv
    | true => exact inv.phase (by decide)

theorem interned_step (g : StringTable) (label : Label) (g' : StringTable) (inv : Interned g)
    (stepped : StringTable.system.step g label = some g') : Interned g' := by
  replace stepped : g.step label = some g' := stepped
  cases label with
  | newlstr str granted =>
    cases stepped
    exact (luaSNewlstr_spec inv str granted).1
  | resize lognewsize granted =>
    cases stepped
    exact inv.luaSResize lognewsize granted
  | fix ts =>
    simp only [StringTable.step, Option.ite_none_right_eq_some, Option.some.injEq] at stepped
    obtain ⟨-, rfl⟩ := stepped
    exact inv.remark ts (oneWhite_fix _)
  | mark ts =>
    simp only [StringTable.step, Option.ite_none_right_eq_some, Option.some.injEq] at stepped
    obtain ⟨-, rfl⟩ := stepped
    exact inv.remark ts (oneWhite_stringmark _)
  | singlestep finished granted =>
    cases stepped
    exact inv.singlestep finished granted
  | fullgcReset =>
    simp only [StringTable.step, StringTable.fullgcReset, Option.ite_none_right_eq_some,
      Option.some.injEq] at stepped
    obtain ⟨-, rfl⟩ := stepped
    exact inv.startSweep inv.white
  | fullgcMarkroot =>
    simp only [StringTable.step, StringTable.fullgcMarkroot, Option.ite_none_right_eq_some,
      Option.some.injEq] at stepped
    obtain ⟨-, rfl⟩ := stepped
    exact inv.phase (by decide)

theorem interned_run {labels : List Label} {g : StringTable}
    (reaches : StringTable.system.run .fresh labels = some g) :
    Interned g :=
  StringTable.system.invariant interned_step interned_fresh reaches

/-- The strings of the table are as many as their contents, each in its own bucket, and
    `luaS_newlstr` finds them. -/
structure StringsInterned (g : StringTable) : Prop where
  once : g.chained.Nodup
  bucket : ∀ b chain, g.hash[b]? = some chain →
    ∀ ts ∈ chain, (hashOf (g.bytesOf ts)).toNat % g.size = b
  content : ∀ a ∈ g.chained, ∀ b ∈ g.chained, luaORawequalString a b = true ↔
    g.bytesOf a = g.bytesOf b
  newlstr : ∀ str granted, Interns g str granted

theorem strings_interned {labels : List Label} {g : StringTable}
    (reaches : StringTable.system.run .fresh labels = some g) :
    StringsInterned g ∧ g.nuse.toNat = g.chained.length % 2 ^ 32 := by
  have inv := interned_run reaches
  refine ⟨⟨inv.nodup, ?_, ?_, fun str granted => (luaSNewlstr_spec inv str granted).2⟩, ?_⟩
  · intro b chain found ts inChain
    have inTable : ts ∈ g.chained :=
      List.mem_flatten.mpr ⟨chain, List.mem_of_getElem? found, inChain⟩
    have here := inv.placed b chain found ts inChain
    obtain ⟨k, length⟩ := inv.size
    rw [inv.hashed ts inTable, length, lmod_two_pow] at here
    rwa [StringTable.size, length]
  · intro a ha b hb
    rw [luaORawequalString, beq_iff_eq]
    exact (inv.bytes_inj ha hb).symm
  · rw [inv.counted, BitVec.toNat_ofNat]

-- a string that the collector has given up is found again before its bucket is swept
def revivingLabels : List Label :=
  [.newlstr [97] ⟨true, true⟩, .singlestep false true, .singlestep true true,
    .newlstr [97] ⟨true, true⟩, .newlstr [98] ⟨true, true⟩]

theorem revived_string_interned :
    ∃ g, StringTable.system.run .fresh revivingLabels = some g ∧ g.chained.length = 2 ∧
      StringsInterned g ∧ g.nuse.toNat = g.chained.length % 2 ^ 32 :=
  ⟨_, rfl, by decide, strings_interned (show StringTable.system.run .fresh revivingLabels =
    some _ from rfl)⟩

/-! ## The counter wraps -/

theorem newlstr_granted (g : StringTable) {str : List UInt8} (h : BitVec 32)
    (small : str.length + 1 ≤ maxSizet - sizeofTString) :
    (g.newlstr str h ⟨true, true⟩).1 = .returned g.next := by
  rw [StringTable.newlstr, if_neg (Nat.not_lt.mpr small)]
  simp only [↓reduceIte]
  split
  · have resized : ((g.link str h).luaSResize ((g.link str h).size * 2) true).1 = true := by
      unfold StringTable.luaSResize
      split <;> rfl
    split
    · rfl
    · rename_i refused
      simp [refused] at resized
  · rfl

-- a string of five bytes for every number below 2^40
def numbered (n : Nat) : List UInt8 :=
  [.ofNat n, .ofNat (n / 2 ^ 8), .ofNat (n / 2 ^ 16), .ofNat (n / 2 ^ 24), .ofNat (n / 2 ^ 32)]

theorem numbered_inj {m n : Nat} (hm : m < 2 ^ 40) (hn : n < 2 ^ 40)
    (same : numbered m = numbered n) : m = n := by
  simp only [numbered, List.cons.injEq, ← UInt8.toNat_inj, UInt8.toNat_ofNat', and_true] at same
  omega

def numberedLabels (n : Nat) : List Label :=
  (List.range n).map fun i => .newlstr (numbered i) ⟨true, true⟩

theorem numbered_run (n : Nat) (bound : n ≤ 2 ^ 40) :
    ∃ g, StringTable.system.run .fresh (numberedLabels n) = some g ∧ g.chained.length = n ∧
      ∀ ts ∈ g.chained, ∃ i < n, g.bytesOf ts = numbered i := by
  induction n with
  | zero => exact ⟨.fresh, rfl, rfl, by decide⟩
  | succ n ih =>
    obtain ⟨g, reaches, length, all⟩ := ih (by omega)
    have inv := interned_run reaches
    have absent : ∀ ts ∈ g.chained, g.bytesOf ts ≠ numbered n := by
      intro ts chained same
      obtain ⟨i, less, eq⟩ := all ts chained
      have := numbered_inj (by omega) (by omega) (eq.symm.trans same)
      omega
    have missing : (g.hash.getD (lmod (hashOf (numbered n)) g.size) []).find?
        (fun o => g.bytesOf o == numbered n) = none := by
      refine List.find?_eq_none.mpr fun ts inChain => ?_
      simpa using absent ts (Interned.of_bucket inChain)
    have eq : g.luaSNewlstr (numbered n) ⟨true, true⟩ =
        g.newlstr (numbered n) (hashOf (numbered n)) ⟨true, true⟩ := by
      simp only [StringTable.luaSNewlstr, missing]
    have small : (numbered n).length + 1 ≤ maxSizet - sizeofTString := by
      simp [numbered, maxSizet, sizeofTString]
    have returned := newlstr_granted g (hashOf (numbered n)) small
    obtain ⟨-, perm, strings, -⟩ := (newlstr_spec inv absent ⟨true, true⟩).2 _ returned
    refine ⟨(g.luaSNewlstr (numbered n) ⟨true, true⟩).2, ?_, ?_, ?_⟩
    · rw [numberedLabels, List.range_succ, List.map_append, System.run_append,
        ← numberedLabels, reaches]
      rfl
    · rw [eq, perm.length_eq, List.length_cons, length]
    · intro ts chained
      rw [eq] at chained ⊢
      cases List.mem_cons.mp (perm.mem_iff.mp chained) with
      | inl new =>
        refine ⟨n, Nat.lt_succ_self n, ?_⟩
        rw [new, bytesOf, strings, link_strings_new]
      | inr old =>
        obtain ⟨i, less, same⟩ := all ts old
        refine ⟨i, Nat.lt_succ_of_lt less, ?_⟩
        rw [bytesOf, strings, link_strings_old inv _ old]
        exact same

theorem nuse_wraps :
    ∃ g, StringTable.system.run .fresh (numberedLabels (2 ^ 32)) = some g ∧
      g.chained.length = 2 ^ 32 ∧ g.nuse.toNat ≠ g.chained.length := by
  obtain ⟨g, reaches, length, -⟩ := numbered_run (2 ^ 32) (by decide)
  refine ⟨g, reaches, length, ?_⟩
  have counted := (interned_run reaches).counted
  rw [length] at counted ⊢
  rw [counted]
  decide

end Lunatik.Verified
