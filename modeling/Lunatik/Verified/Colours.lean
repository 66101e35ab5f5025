import Lunatik.Lua.Mutator

/-! # Colours

What each change of a mark does to the colours of the objects: white, gray and black, dead, and condemned,
which is what the sweep frees.
-/

namespace Lunatik.Verified.Colours

open Lunatik.Lua.Gc Lunatik.Lua.Gc.GlobalState
open Lunatik.Lua.StringTable (whitebits blackbit fixedbit)

/-! ## Marks -/

def whiteMark (m : BitVec 8) : Bool := m &&& whitebits != 0

def blackMark (m : BitVec 8) : Bool := m &&& blackbit != 0

-- with the other white
def deadMark (other m : BitVec 8) : Bool := m &&& other &&& whitebits != 0

def condemnedMark (other m : BitVec 8) : Bool := (m ^^^ whitebits) &&& other == 0

/-- The current white is one of the two, and the sweep spares what is fixed. -/
def White (g : GlobalState) : Prop := g.currentwhite = 0b100001 ∨ g.currentwhite = 0b100010

/-- At most one of the bits of the two whites and of black is set. -/
def Coloured (m : BitVec 8) : Prop := m &&& 0b111 ∈ [0, 0b1, 0b10, 0b100]

instance (m : BitVec 8) : Decidable (Coloured m) := inferInstanceAs (Decidable (_ ∈ _))

/-- As white as a new object. -/
def Fresh (g : GlobalState) (o : GCObject) : Prop := g.iswhite o = true ∧ g.isdead o = false

variable {g : GlobalState} {o o' : GCObject} {m : BitVec 8}

theorem iswhite_eq : g.iswhite o = whiteMark (g.marked o) := rfl

theorem isblack_eq : g.isblack o = blackMark (g.marked o) := rfl

theorem isdead_eq : g.isdead o = deadMark g.otherwhite (g.marked o) := rfl

theorem condemned_eq : g.condemned o = condemnedMark g.otherwhite (g.marked o) := rfl

/-- What holds for either white holds for the current one. -/
theorem White.elim (white : White g) {p : BitVec 8 → BitVec 8 → Prop} (first : p 0b100001 0b100010)
    (second : p 0b100010 0b100001) : p g.currentwhite g.otherwhite := by
  unfold otherwhite
  cases white with
  | inl white => rw [white]; exact first
  | inr white => rw [white]; exact second

theorem condemned_isdead (white : White g) (condemned : g.condemned o = true) : g.isdead o = true := by
  rw [condemned_eq] at condemned
  rw [isdead_eq]
  generalize g.marked o = m at condemned ⊢
  exact white.elim (p := fun _ other => ∀ m, condemnedMark other m = true → deadMark other m = true)
    (by decide) (by decide) m condemned

theorem condemned_of_isdead (white : White g) (unfixed : g.marked o &&& fixedbit = 0)
    (dead : g.isdead o = true) : g.condemned o = true := by
  rw [isdead_eq] at dead
  rw [condemned_eq]
  generalize g.marked o = m at dead unfixed ⊢
  exact white.elim (p := fun _ other => ∀ m, m &&& fixedbit = 0 → deadMark other m = true →
    condemnedMark other m = true) (by decide) (by decide) m unfixed dead

theorem isdead_iswhite (white : White g) (dead : g.isdead o = true) : g.iswhite o = true := by
  rw [isdead_eq] at dead
  rw [iswhite_eq]
  generalize g.marked o = m at dead ⊢
  exact white.elim (p := fun _ other => ∀ m, deadMark other m = true → whiteMark m = true)
    (by decide) (by decide) m dead

theorem alive_of_nonwhite (white : White g) (nonwhite : g.iswhite o = false) : g.isdead o = false := by
  cases dead : g.isdead o with
  | false => rfl
  | true => rw [isdead_iswhite white dead] at nonwhite; cases nonwhite

theorem spared_of_alive (white : White g) (alive : g.isdead o = false) : g.condemned o = false := by
  cases condemned : g.condemned o with
  | false => rfl
  | true => rw [condemned_isdead white condemned] at alive; cases alive

theorem gray2black_deadMark (white : White g) (m : BitVec 8) :
    deadMark g.otherwhite (m ||| blackbit) = deadMark g.otherwhite m :=
  white.elim (p := fun _ other => ∀ m, deadMark other (m ||| blackbit) = deadMark other m) (by decide) (by decide) m

theorem Coloured.isblack (coloured : Coloured (g.marked o)) (white : g.iswhite o = true) :
    g.isblack o = false := by
  rw [iswhite_eq] at white
  rw [isblack_eq]
  generalize g.marked o = m at coloured white ⊢
  revert m
  decide

theorem isgray_iff : g.isgray o = true ↔ g.isblack o = false ∧ g.iswhite o = false := by
  simp [isgray]

/-! ## Changes of a mark -/

theorem setMark_marked : (g.setMark o m).marked o' = if o' = o then m else g.marked o' := rfl

theorem setMark_self : (g.setMark o m).marked o = m := by rw [setMark_marked, if_pos rfl]

theorem setMark_other (ne : o' ≠ o) : (g.setMark o m).marked o' = g.marked o' := by rw [setMark_marked, if_neg ne]

theorem setMark_iswhite : (g.setMark o m).iswhite o' = if o' = o then whiteMark m else g.iswhite o' := by
  rw [iswhite_eq, setMark_marked]
  split <;> rfl

theorem setMark_isblack : (g.setMark o m).isblack o' = if o' = o then blackMark m else g.isblack o' := by
  rw [isblack_eq, setMark_marked]
  split <;> rfl

theorem setMark_isdead :
    (g.setMark o m).isdead o' = if o' = o then deadMark g.otherwhite m else g.isdead o' := by
  rw [isdead_eq, setMark_marked]
  split <;> rfl

theorem setMark_condemned :
    (g.setMark o m).condemned o' = if o' = o then condemnedMark g.otherwhite m else g.condemned o' := by
  rw [condemned_eq, setMark_marked]
  split <;> rfl

/-- A mark that replaces another of the same colour. -/
structure SameColour (g : GlobalState) (o : GCObject) (m : BitVec 8) : Prop where
  white : whiteMark m = g.iswhite o
  black : blackMark m = g.isblack o
  dead : deadMark g.otherwhite m = g.isdead o

section SameColour

variable (same : SameColour g o m)

include same

theorem SameColour.iswhite : (g.setMark o m).iswhite o' = g.iswhite o' := by
  rw [setMark_iswhite]
  split
  next here => rw [here, same.white]
  next => rfl

theorem SameColour.isblack : (g.setMark o m).isblack o' = g.isblack o' := by
  rw [setMark_isblack]
  split
  next here => rw [here, same.black]
  next => rfl

theorem SameColour.isdead : (g.setMark o m).isdead o' = g.isdead o' := by
  rw [setMark_isdead]
  split
  next here => rw [here, same.dead]
  next => rfl

end SameColour

-- the bits that have to do with colours
theorem whiteMark_low (m : BitVec 8) : whiteMark m = whiteMark (m &&& 0b100111) := by
  revert m
  decide

theorem blackMark_low (m : BitVec 8) : blackMark m = blackMark (m &&& 0b100111) := by
  revert m
  decide

theorem deadMark_low (white : White g) (m : BitVec 8) :
    deadMark g.otherwhite m = deadMark g.otherwhite (m &&& 0b100111) :=
  white.elim (p := fun _ other => ∀ m, deadMark other m = deadMark other (m &&& 0b100111))
    (by decide) (by decide) m

theorem sameColour_of (white : White g) (low : m &&& 0b100111 = g.marked o &&& 0b100111) :
    SameColour g o m where
  white := by rw [iswhite_eq, whiteMark_low m, low, ← whiteMark_low]
  black := by rw [isblack_eq, blackMark_low m, low, ← blackMark_low]
  dead := by rw [isdead_eq, deadMark_low white m, low, ← deadMark_low white]

theorem markfinalized_low (m : BitVec 8) : (m ||| finalizedbit) &&& 0b100111 = m &&& 0b100111 := by
  revert m
  decide

theorem linkweak_low (weakkey weakvalue : Bool) (m : BitVec 8) :
    ((m &&& ~~~(keyweak ||| valueweak)) ||| ((if weakkey then keyweak else 0) ||| (if weakvalue then valueweak else 0)))
      &&& 0b100111 = m &&& 0b100111 := by
  revert m
  cases weakkey <;> cases weakvalue <;> decide

/-! ### White to gray -/

theorem white2gray_iswhite : (g.white2gray o).iswhite o' = (g.iswhite o' && !decide (o' = o)) := by
  have none : ∀ m, whiteMark (m &&& ~~~whitebits) = false := by decide
  unfold white2gray
  rw [setMark_iswhite, none]
  by_cases here : o' = o <;> simp [here]

theorem white2gray_isblack : (g.white2gray o).isblack o' = g.isblack o' := by
  have kept : ∀ m, blackMark (m &&& ~~~whitebits) = blackMark m := by decide
  unfold white2gray
  rw [setMark_isblack, kept]
  split
  next here => rw [here, isblack_eq]
  next => rfl

/-! ### Gray to black, and back -/

theorem gray2black_iswhite : (g.gray2black o).iswhite o' = g.iswhite o' := by
  have kept : ∀ m, whiteMark (m ||| blackbit) = whiteMark m := by decide
  unfold gray2black
  rw [setMark_iswhite, kept]
  split
  next here => rw [here, iswhite_eq]
  next => rfl

theorem gray2black_isblack : (g.gray2black o).isblack o' = (g.isblack o' || decide (o' = o)) := by
  have black : ∀ m, blackMark (m ||| blackbit) = true := by decide
  unfold gray2black
  rw [setMark_isblack, black]
  by_cases here : o' = o <;> simp [here]

theorem gray2black_isdead (white : White g) : (g.gray2black o).isdead o' = g.isdead o' := by
  unfold gray2black
  rw [setMark_isdead, gray2black_deadMark white]
  split
  next here => rw [here, isdead_eq]
  next => rfl

theorem black2gray_iswhite : (g.black2gray o).iswhite o' = g.iswhite o' := by
  have kept : ∀ m, whiteMark (m &&& ~~~blackbit) = whiteMark m := by decide
  unfold black2gray
  rw [setMark_iswhite, kept]
  split
  next here => rw [here, iswhite_eq]
  next => rfl

theorem black2gray_isblack : (g.black2gray o).isblack o' = (g.isblack o' && !decide (o' = o)) := by
  have none : ∀ m, blackMark (m &&& ~~~blackbit) = false := by decide
  unfold black2gray
  rw [setMark_isblack, none]
  by_cases here : o' = o <;> simp [here]

theorem black2gray_isdead (white : White g) : (g.black2gray o).isdead o' = g.isdead o' := by
  have kept : ∀ m, deadMark g.otherwhite (m &&& ~~~blackbit) = deadMark g.otherwhite m :=
    white.elim (p := fun _ other => ∀ m, deadMark other (m &&& ~~~blackbit) = deadMark other m)
      (by decide) (by decide)
  unfold black2gray
  rw [setMark_isdead, kept]
  split
  next here => rw [here, isdead_eq]
  next => rfl

/-! ### The white of a new object -/

/-- A mark as white as a new object's. -/
structure FreshMark (g : GlobalState) (m : BitVec 8) : Prop where
  white : whiteMark m = true
  black : blackMark m = false
  alive : deadMark g.otherwhite m = false

theorem freshMark_luaCWhite (white : White g) : FreshMark g g.luaCWhite := by
  have all : whiteMark (g.currentwhite &&& whitebits) = true ∧ blackMark (g.currentwhite &&& whitebits) = false ∧
      deadMark g.otherwhite (g.currentwhite &&& whitebits) = false :=
    white.elim (p := fun current other => whiteMark (current &&& whitebits) = true ∧
      blackMark (current &&& whitebits) = false ∧ deadMark other (current &&& whitebits) = false)
      (by decide) (by decide)
  exact ⟨all.1, all.2.1, all.2.2⟩

theorem freshMark_makewhite (white : White g) (m : BitVec 8) :
    FreshMark g ((m &&& ~~~(blackbit ||| whitebits)) ||| g.luaCWhite) := by
  have all : ∀ m, whiteMark ((m &&& ~~~(blackbit ||| whitebits)) ||| (g.currentwhite &&& whitebits)) = true ∧
      blackMark ((m &&& ~~~(blackbit ||| whitebits)) ||| (g.currentwhite &&& whitebits)) = false ∧
      deadMark g.otherwhite ((m &&& ~~~(blackbit ||| whitebits)) ||| (g.currentwhite &&& whitebits)) = false :=
    white.elim (p := fun current other => ∀ m,
      whiteMark ((m &&& ~~~(blackbit ||| whitebits)) ||| (current &&& whitebits)) = true ∧
      blackMark ((m &&& ~~~(blackbit ||| whitebits)) ||| (current &&& whitebits)) = false ∧
      deadMark other ((m &&& ~~~(blackbit ||| whitebits)) ||| (current &&& whitebits)) = false)
      (by decide) (by decide)
  exact ⟨(all m).1, (all m).2.1, (all m).2.2⟩

theorem freshMark_changewhite (white : White g) (coloured : Coloured (g.marked o)) (dead : g.isdead o = true) :
    FreshMark g (g.marked o ^^^ whitebits) := by
  rw [isdead_eq] at dead
  generalize g.marked o = m at coloured dead ⊢
  have all : ∀ m, Coloured m → deadMark g.otherwhite m = true →
      whiteMark (m ^^^ whitebits) = true ∧ blackMark (m ^^^ whitebits) = false ∧
      deadMark g.otherwhite (m ^^^ whitebits) = false :=
    white.elim (p := fun _ other => ∀ m, Coloured m → deadMark other m = true →
      whiteMark (m ^^^ whitebits) = true ∧ blackMark (m ^^^ whitebits) = false ∧
      deadMark other (m ^^^ whitebits) = false)
      (by decide) (by decide)
  have these := all m coloured dead
  exact ⟨these.1, these.2.1, these.2.2⟩

section FreshMark

variable (new : FreshMark g m)

include new

theorem FreshMark.iswhite : (g.setMark o m).iswhite o' = (g.iswhite o' || decide (o' = o)) := by
  rw [setMark_iswhite, new.white]
  by_cases here : o' = o <;> simp [here]

theorem FreshMark.isblack : (g.setMark o m).isblack o' = (g.isblack o' && !decide (o' = o)) := by
  rw [setMark_isblack, new.black]
  by_cases here : o' = o <;> simp [here]

theorem FreshMark.isdead : (g.setMark o m).isdead o' = (g.isdead o' && !decide (o' = o)) := by
  rw [setMark_isdead, new.alive]
  by_cases here : o' = o <;> simp [here]

theorem FreshMark.fresh : Fresh (g.setMark o m) o := by
  constructor
  · simp [new.iswhite]
  · simp [new.isdead]

end FreshMark

/-! ### One colour -/

theorem Coloured.setMark (coloured : Coloured (g.marked o')) (new : Coloured m) :
    Coloured ((g.setMark o m).marked o') := by
  rw [setMark_marked]
  split
  · exact new
  · exact coloured

theorem Coloured.white2gray (coloured : Coloured m) : Coloured (m &&& ~~~whitebits) := by
  revert m
  decide

theorem Coloured.gray2black (coloured : Coloured m) (nonwhite : whiteMark m = false) : Coloured (m ||| blackbit) := by
  revert m
  decide

theorem Coloured.black2gray (coloured : Coloured m) : Coloured (m &&& ~~~blackbit) := by
  revert m
  decide

theorem Coloured.sameLow {m' : BitVec 8} (coloured : Coloured m) (low : m' &&& 0b100111 = m &&& 0b100111) :
    Coloured m' := by
  have lower : ∀ m, Coloured m ↔ Coloured (m &&& 0b100111) := by decide
  rw [lower, low, ← lower]
  exact coloured

theorem Coloured.luaCWhite (white : White g) : Coloured g.luaCWhite :=
  white.elim (p := fun current _ => Coloured (current &&& whitebits)) (by decide) (by decide)

theorem Coloured.makewhite (white : White g) (m : BitVec 8) :
    Coloured ((m &&& ~~~(blackbit ||| whitebits)) ||| g.luaCWhite) :=
  white.elim (p := fun current _ => ∀ m : BitVec 8,
    Coloured ((m &&& ~~~(blackbit ||| whitebits)) ||| (current &&& whitebits))) (by decide) (by decide) m

theorem Coloured.changewhite (coloured : Coloured m) (white : whiteMark m = true) : Coloured (m ^^^ whitebits) := by
  revert m
  decide

/-! ### The other bits -/

/-- The bits of a mark that are no colours. -/
def flagbits : BitVec 8 := 0b11111000

theorem valueweak_of_flags {m m' : BitVec 8} (same : m &&& flagbits = m' &&& flagbits) :
    m &&& valueweak = m' &&& valueweak := by
  have inside : ∀ m : BitVec 8, m &&& valueweak = m &&& flagbits &&& valueweak := by decide
  rw [inside, same, ← inside]

theorem fixed_of_flags {m m' : BitVec 8} (same : m &&& flagbits = m' &&& flagbits) :
    m &&& fixedbit = m' &&& fixedbit := by
  have inside : ∀ m : BitVec 8, m &&& fixedbit = m &&& flagbits &&& fixedbit := by decide
  rw [inside, same, ← inside]

theorem white2gray_flags (m : BitVec 8) : (m &&& ~~~whitebits) &&& flagbits = m &&& flagbits := by
  revert m
  decide

theorem gray2black_flags (m : BitVec 8) : (m ||| blackbit) &&& flagbits = m &&& flagbits := by
  revert m
  decide

theorem black2gray_flags (m : BitVec 8) : (m &&& ~~~blackbit) &&& flagbits = m &&& flagbits := by
  revert m
  decide

theorem changewhite_flags (m : BitVec 8) : (m ^^^ whitebits) &&& flagbits = m &&& flagbits := by
  revert m
  decide

theorem makewhite_flags (white : White g) (m : BitVec 8) :
    ((m &&& ~~~(blackbit ||| whitebits)) ||| g.luaCWhite) &&& flagbits = m &&& flagbits :=
  white.elim (p := fun current _ => ∀ m : BitVec 8,
    ((m &&& ~~~(blackbit ||| whitebits)) ||| (current &&& whitebits)) &&& flagbits = m &&& flagbits)
    (by decide) (by decide) m

end Lunatik.Verified.Colours
