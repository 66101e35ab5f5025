import Lunatik.Library.StateRuns

/-! # Pre- and postconditions for programs with state and errors

Programs are in `EStateM ε σ`, which keeps the state when an error is raised.
`Triple P m Q E` says that `m`, started where `P` holds, ends where `Q` holds of its
result, or raises an error in a state where `E` holds of it.  `Stable P E m` is the case of a
predicate that is kept, `Kept P m` of one that errors keep as well; the rules of both are tagged for
`grind`.
-/

namespace Lunatik.Library

variable {ε σ α β : Type}

def Triple (P : σ → Prop) (m : EStateM ε σ α) (Q : α → σ → Prop) (E : ε → σ → Prop) : Prop :=
  ∀ s, P s →
    match m s with
    | .ok a t => Q a t
    | .error e t => E e t

namespace Triple

variable {P P' : σ → Prop} {Q Q' : α → σ → Prop} {E : ε → σ → Prop}

theorem conseq {m : EStateM ε σ α} (h : Triple P m Q E) (pre : ∀ s, P' s → P s)
    (post : ∀ a s, Q a s → Q' a s) : Triple P' m Q' E := by
  intro s holds
  have result := h s (pre s holds)
  split at result
  · simp_all
  · simp_all

theorem errors {E' : ε → σ → Prop} {m : EStateM ε σ α} (h : Triple P m Q E')
    (weaker : ∀ e s, E' e s → E e s) :
    Triple P m Q E := by
  intro s holds
  have result := h s holds
  split at result
  · exact result
  · exact weaker _ _ result

theorem ret {a : α} (h : ∀ s, P s → Q a s) : Triple P (pure a : EStateM ε σ α) Q E := h

theorem raise {e : ε} (h : ∀ s, P s → E e s) : Triple P (throw e : EStateM ε σ α) Q E := h

theorem bind {m : EStateM ε σ α} {f : α → EStateM ε σ β} {R : α → σ → Prop} {Q : β → σ → Prop}
    (first : Triple P m R E) (rest : ∀ a, Triple (R a) (f a) Q E) : Triple P (m >>= f) Q E := by
  intro s holds
  have result := first s holds
  simp only [Bind.bind, EStateM.bind]
  split at result
  next a t ran =>
    rw [ran]
    exact rest a t result
  next e t ran =>
    rw [ran]
    exact result

theorem get_bind {f : σ → EStateM ε σ β} {Q : β → σ → Prop}
    (rest : ∀ s, Triple (fun t => P t ∧ t = s) (f s) Q E) : Triple P (get >>= f) Q E := by
  intro s holds
  exact rest s s ⟨holds, rfl⟩

theorem pre {m : EStateM ε σ α} (h : Triple P m Q E) (weaker : ∀ s, P' s → P s) : Triple P' m Q E :=
  fun s holds => h s (weaker s holds)

-- a fact that the precondition gives may be used in the proof
theorem given {m : EStateM ε σ α} {φ : Prop} (known : ∀ s, P s → φ) (h : φ → Triple P m Q E) :
    Triple P m Q E :=
  fun s holds => h (known s holds) s holds

theorem exists_pre {γ : Sort*} {m : EStateM ε σ α} {P : γ → σ → Prop}
    (h : ∀ c, Triple (P c) m Q E) :
    Triple (fun s => ∃ c, P c s) m Q E :=
  fun s ⟨c, holds⟩ => h c s holds

theorem update {f : σ → σ} {Q : PUnit → σ → Prop} (h : ∀ s, P s → Q ⟨⟩ (f s)) :
    Triple P (modify f : EStateM ε σ PUnit) Q E := h

theorem cond {c : Prop} [Decidable c] {m₁ m₂ : EStateM ε σ α} (pos : c → Triple P m₁ Q E)
    (neg : ¬ c → Triple P m₂ Q E) : Triple P (if c then m₁ else m₂) Q E := by
  split
  next h => exact pos h
  next h => exact neg h

-- `if c then m` in the middle of a program
theorem cond_then {c : Prop} [Decidable c] {m : EStateM ε σ PUnit} {rest : PUnit → EStateM ε σ α}
    {R : σ → Prop} (pos : c → Triple P m (fun _ => R) E) (neg : ¬ c → ∀ s, P s → R s)
    (after : Triple R (rest ⟨⟩) Q E) : Triple P (if c then m >>= rest else rest ⟨⟩) Q E :=
  cond (fun h => bind (pos h) fun _ => after) fun h => after.pre (neg h)

-- the same where the result of `m` is dropped
theorem cond_discard {γ : Type} {c : Prop} [Decidable c] {m : EStateM ε σ γ} {rest : EStateM ε σ α}
    {R : σ → Prop} (pos : c → Triple P m (fun _ => R) E) (neg : ¬ c → ∀ s, P s → R s)
    (after : Triple R rest Q E) : Triple P (if c then m >>= fun _ => rest else rest) Q E :=
  cond (fun h => bind (pos h) fun _ => after) fun h => after.pre (neg h)

-- where errors satisfy the postcondition as well
theorem after {m : EStateM ε σ α} {R : σ → Prop} (h : Triple P m (fun _ => R) fun _ => R) {s : σ}
    (holds : P s) : R (stateAfter m s) := by
  have result := h s holds
  unfold stateAfter
  cases ran : m s with
  | ok a t =>
    rw [ran] at result
    exact result
  | error e t =>
    rw [ran] at result
    exact result

end Triple

/-! ## Stable predicates -/

/-- `m` keeps `P`, and raises no other errors than those of `E`. -/
def Stable (P : σ → Prop) (E : ε → Prop) (m : EStateM ε σ α) : Prop :=
  Triple P m (fun _ => P) fun e _ => E e

namespace Stable

variable {P : σ → Prop} {E : ε → Prop}

@[grind ←] theorem ret (a : α) : Stable P E (pure a : EStateM ε σ α) :=
  Triple.ret fun _ holds => holds

@[grind ←] theorem raise {e : ε} (h : E e) : Stable P E (throw e : EStateM ε σ α) :=
  Triple.raise fun _ _ => h

@[grind ←] theorem bind {m : EStateM ε σ α} {f : α → EStateM ε σ β} (first : Stable P E m)
    (rest : ∀ a, Stable P E (f a)) : Stable P E (m >>= f) := Triple.bind first rest

@[grind ←] theorem get_bind {f : σ → EStateM ε σ β} (rest : ∀ s, P s → Stable P E (f s)) :
    Stable P E (get >>= f) := by
  intro s holds
  exact rest s holds s holds

@[grind ←] theorem write {s : σ} (h : P s) : Stable P E (set s : EStateM ε σ PUnit) := fun _ _ => h

@[grind ←] theorem update {f : σ → σ} (h : ∀ s, P s → P (f s)) :
    Stable P E (modify f : EStateM ε σ PUnit) :=
  Triple.update h

end Stable

/-! ## Kept predicates -/

/-- `m` keeps `P`, also where it raises an error. -/
def Kept (P : σ → Prop) (m : EStateM ε σ α) : Prop := Triple P m (fun _ => P) fun _ => P

namespace Kept

variable {P : σ → Prop}

@[grind ←] theorem ret (a : α) : Kept P (pure a : EStateM ε σ α) :=
  Triple.ret fun _ holds => holds

@[grind ←] theorem raise (e : ε) : Kept P (throw e : EStateM ε σ α) :=
  Triple.raise fun _ holds => holds

@[grind ←] theorem bind {m : EStateM ε σ α} {f : α → EStateM ε σ β} (first : Kept P m)
    (rest : ∀ a, Kept P (f a)) : Kept P (m >>= f) := Triple.bind first rest

@[grind ←] theorem get_bind {f : σ → EStateM ε σ β} (rest : ∀ s, P s → Kept P (f s)) :
    Kept P (get >>= f) := by
  intro s holds
  exact rest s holds s holds

@[grind ←] theorem write {s : σ} (h : P s) : Kept P (set s : EStateM ε σ PUnit) := fun _ _ => h

@[grind ←] theorem update {f : σ → σ} (h : ∀ s, P s → P (f s)) :
    Kept P (modify f : EStateM ε σ PUnit) :=
  Triple.update h

theorem after {m : EStateM ε σ α} (kept : Kept P m) {s : σ} (holds : P s) : P (stateAfter m s) :=
  Triple.after kept holds

end Kept

end Lunatik.Library
