import Mathlib.Data.List.Basic

/-! # Labelled transition systems

A transition system whose step is a partial function of the state and a label.
A label carries every choice the environment makes (which party moves, whether an
allocation fails, whether a wait is interrupted), so a list of labels is one
interleaving and `run` replays it.

`Meets ok` says that every step of a run is taken in a state where `ok` holds of
the label.  The two invariant rules below are the only inductions over runs that
the developments on top of this module need.
-/

namespace Lunatik.Library

/-- A transition system over states `σ` and labels `α`; `none` means the label is
    not enabled. -/
structure System (σ α : Type*) where
  step : σ → α → Option σ

namespace System

variable {σ α : Type*} (S : System σ α)

/-- Replay a list of labels. -/
def run : σ → List α → Option σ
  | s, [] => some s
  | s, a :: as => (S.step s a).bind fun t => run t as

/-- Every step of the run from `s` along the labels is taken where `ok` allows it. -/
def Meets (ok : σ → α → Prop) : σ → List α → Prop
  | _, [] => True
  | s, a :: as => ok s a ∧ ∀ t, S.step s a = some t → Meets ok t as

@[simp] theorem run_nil (s : σ) : S.run s [] = some s := rfl

theorem run_cons_inv {s u : σ} {a : α} {as : List α} (h : S.run s (a :: as) = some u) :
    ∃ t, S.step s a = some t ∧ S.run t as = some u := by
  simpa only [run, Option.bind_eq_some_iff] using h

theorem run_append (s : σ) (as bs : List α) :
    S.run s (as ++ bs) = (S.run s as).bind fun t => S.run t bs := by
  induction as generalizing s with
  | nil => rfl
  | cons a as ih =>
    simp only [List.cons_append, run, Option.bind_assoc]
    exact congrArg _ (funext ih)

/-- A property that every step allowed by `ok` preserves holds at the end of every
    run that meets `ok`. -/
theorem invariant_of_meets {ok : σ → α → Prop} {inv : σ → Prop}
    (preserved : ∀ s a t, inv s → ok s a → S.step s a = some t → inv t)
    {s t : σ} {labels : List α} (start : inv s) (meets : S.Meets ok s labels)
    (reaches : S.run s labels = some t) : inv t := by
  induction labels generalizing s with
  | nil =>
    simp only [run_nil, Option.some.injEq] at reaches
    exact reaches ▸ start
  | cons a as ih =>
    obtain ⟨u, stepped, rest⟩ := S.run_cons_inv reaches
    exact ih (preserved s a u start meets.1 stepped) (meets.2 u stepped) rest

/-- A number that grows by one with each step of a kind counts the steps of that kind. -/
theorem count_of_meets {ok : σ → α → Prop} {inv : σ → Prop} {f : σ → Nat} {p : α → Bool}
    (counts : ∀ s a t, inv s → ok s a → S.step s a = some t → inv t ∧ f t = f s + if p a then 1 else 0)
    {s t : σ} {labels : List α} (start : inv s) (meets : S.Meets ok s labels)
    (reaches : S.run s labels = some t) : f t = f s + labels.countP p := by
  induction labels generalizing s with
  | nil =>
    simp only [run_nil, Option.some.injEq] at reaches
    simp [reaches]
  | cons a as ih =>
    obtain ⟨u, stepped, rest⟩ := S.run_cons_inv reaches
    obtain ⟨kept, counted⟩ := counts s a u start meets.1 stepped
    have later := ih kept (meets.2 u stepped) rest
    rw [List.countP_cons]
    omega

/-- Where a step keeps the invariant if and only if `ok` allows it, the invariant holds all along a run
    if and only if the run meets `ok`. -/
theorem always_iff_meets {ok : σ → α → Prop} {inv : σ → Prop}
    (exact : ∀ s a, inv s → ∃ t, S.step s a = some t ∧ (inv t ↔ ok s a)) {s : σ} (start : inv s)
    (labels : List α) :
    (∀ n t, S.run s (labels.take n) = some t → inv t) ↔ S.Meets ok s labels := by
  induction labels generalizing s with
  | nil =>
    refine iff_of_true (fun n t reaches => ?_) trivial
    rw [List.take_nil, run_nil, Option.some.injEq] at reaches
    exact reaches ▸ start
  | cons a as ih =>
    obtain ⟨t, stepped, allowed⟩ := exact s a start
    have rest : ∀ n, S.run s ((a :: as).take (n + 1)) = S.run t (as.take n) := fun n => by
      rw [List.take_succ_cons, run, stepped, Option.bind_some]
    constructor
    · intro always
      have next : inv t := always 1 t (by rw [rest, List.take_zero, run_nil])
      refine ⟨allowed.mp next, fun u stepped' => ?_⟩
      obtain rfl : t = u := Option.some.inj (stepped.symm.trans stepped')
      exact (ih next).mp fun n u reaches => always (n + 1) u (by rw [rest, reaches])
    · rintro ⟨ok', meets⟩ n u reaches
      cases n with
      | zero =>
        rw [List.take_zero, run_nil, Option.some.injEq] at reaches
        exact reaches ▸ start
      | succ n =>
        rw [rest] at reaches
        exact (ih (allowed.mpr ok')).mpr (meets t stepped) n u reaches

theorem meets_true (s : σ) (labels : List α) : S.Meets (fun _ _ => True) s labels := by
  induction labels generalizing s with
  | nil => trivial
  | cons a as ih => exact ⟨trivial, fun t _ => ih t⟩

theorem Meets.and {ok ok' : σ → α → Prop} {s : σ} {labels : List α} (meets : S.Meets ok s labels)
    (meets' : S.Meets ok' s labels) : S.Meets (fun s a => ok s a ∧ ok' s a) s labels := by
  induction labels generalizing s with
  | nil => trivial
  | cons a as ih =>
    exact ⟨⟨meets.1, meets'.1⟩, fun t stepped => ih (meets.2 t stepped) (meets'.2 t stepped)⟩

theorem Meets.mono {ok ok' : σ → α → Prop} (weaker : ∀ s a, ok s a → ok' s a) {s : σ}
    {labels : List α} (meets : S.Meets ok s labels) : S.Meets ok' s labels := by
  induction labels generalizing s with
  | nil => trivial
  | cons a as ih => exact ⟨weaker s a meets.1, fun t stepped => ih (meets.2 t stepped)⟩

/-- A property that every step preserves holds at the end of every run. -/
theorem invariant {inv : σ → Prop}
    (preserved : ∀ s a t, inv s → S.step s a = some t → inv t)
    {s t : σ} {labels : List α} (start : inv s) (reaches : S.run s labels = some t) : inv t :=
  S.invariant_of_meets (fun s a t holds _ => preserved s a t holds) start
    (S.meets_true s labels) reaches

instance decidableMeets (ok : σ → α → Prop) [∀ s a, Decidable (ok s a)] :
    ∀ (s : σ) (labels : List α), Decidable (S.Meets ok s labels)
  | _, [] => .isTrue trivial
  | s, a :: as =>
    match h : S.step s a with
    | none => decidable_of_iff (ok s a) ⟨fun h1 => ⟨h1, fun t ht => by simp [h] at ht⟩, And.left⟩
    | some t =>
      have := decidableMeets ok t as
      decidable_of_iff (ok s a ∧ S.Meets ok t as)
        ⟨fun both => ⟨both.1, fun u hu => by
            rw [h, Option.some.injEq] at hu; exact hu ▸ both.2⟩,
          fun both => ⟨both.1, both.2 t h⟩⟩

end System

end Lunatik.Library
