import Lunatik.Library.Links

/-! # Chained scatter tables with Brent's variation

Every key has a home, the cell where its search starts, and the cells of a table are linked into
chains.  `Scatter` is the invariant: each key is on the chain of its home, and a key that is not at
home has a home that is held by a key of its own.  A new key is put at its home (`take`), behind the
key that is at home there (`append`), or at its home after a stranger has been moved away (`move`).
-/

namespace Lunatik.Library

variable {α κ : Type} {home : κ → α} {keyAt : α → Option κ} {next : α → Option α}

structure Scatter (home : κ → α) (keyAt : α → Option κ) (next : α → Option α) : Prop where
  target : ∀ i j, next i = some j → keyAt j ≠ none
  idle : ∀ i, keyAt i = none → next i = none
  single : ∀ i j m, next i = some m → next j = some m → i = j
  ends : ∀ i, ∃ l, Follows next i l
  reach : ∀ i k, keyAt i = some k → Reaches next (home k) i
  own : ∀ i k, keyAt i = some k → ∃ k', keyAt (home k) = some k' ∧ home k' = home k
  once : ∀ i j k, keyAt i = some k → keyAt j = some k → i = j

namespace Scatter

theorem empty (free : ∀ i, keyAt i = none) (unlinked : ∀ i, next i = none) :
    Scatter home keyAt next where
  target := fun i j link => by rw [unlinked] at link; cases link
  idle := fun i _ => unlinked i
  single := fun i j m link => by rw [unlinked] at link; cases link
  ends := fun i => ⟨[i], .last (unlinked i)⟩
  reach := fun i k held => by rw [free] at held; cases held
  own := fun i k held => by rw [free] at held; cases held
  once := fun i j k held => by rw [free] at held; cases held

-- nothing points to a free cell
theorem not_mem_of_free (inv : Scatter home keyAt next) {i n : α} {l : List α}
    (free : keyAt n = none) (follows : Follows next i l) (other : i ≠ n) : n ∉ l := by
  intro member
  obtain ⟨p, -, points⟩ := follows.predecessor member (Ne.symm other)
  exact inv.target p n points free

variable [DecidableEq α] {k : κ} {m n p : α}

theorem once_update (inv : Scatter home keyAt next) (absent : ∀ i, keyAt i ≠ some k)
    {i j : α} {k' : κ} (held : Function.update keyAt n (some k) i = some k')
    (held' : Function.update keyAt n (some k) j = some k') :
    i = j := by
  rw [Function.update_apply] at held held'
  split at held
  next here =>
    obtain rfl := Option.some.inj held
    split at held'
    next here' => rw [here, here']
    next => exact absurd held' (absent j)
  next =>
    split at held'
    next =>
      obtain rfl := Option.some.inj held'
      exact absurd held (absent i)
    next => exact inv.once i j k' held held'

theorem take (inv : Scatter home keyAt next) (absent : ∀ i, keyAt i ≠ some k) :
    Scatter home (Function.update keyAt (home k) (some k)) next where
  target := by
    intro i j link
    rw [Function.update_apply]
    split
    next => exact Option.some_ne_none k
    next => exact inv.target i j link
  idle := by
    intro i free
    rw [Function.update_apply] at free
    split at free
    next => cases free
    next => exact inv.idle i free
  single := inv.single
  ends := inv.ends
  reach := by
    intro i k' held
    rw [Function.update_apply] at held
    split at held
    next here =>
      obtain rfl := Option.some.inj held
      obtain ⟨l, follows⟩ := inv.ends (home k)
      exact ⟨l, follows, here ▸ follows.head_mem⟩
    next => exact inv.reach i k' held
  own := by
    intro i k' held
    rw [Function.update_apply] at held ⊢
    by_cases same : home k' = home k
    · exact ⟨k, if_pos same, same.symm⟩
    · rw [if_neg same]
      split at held
      next =>
        obtain rfl := Option.some.inj held
        exact absurd rfl same
      next => exact inv.own i k' held
  once := fun _ _ _ held held' => inv.once_update absent held held'

theorem append (inv : Scatter home keyAt next) (absent : ∀ i, keyAt i ≠ some k) {k' : κ}
    (held : keyAt (home k) = some k') (atHome : home k' = home k) (free : keyAt n = none) :
    Scatter home (Function.update keyAt n (some k)) (linkBehind next (home k) n) := by
  have different : home k ≠ n := by
    intro same
    rw [same, free] at held
    cases held
  have unlinked : ∀ i, next i ≠ some n := fun i link => inv.target i n link free
  have homeFree : ∀ {i k}, keyAt i = some k → home k ≠ n := by
    intro i k held' same
    obtain ⟨k', atHome, -⟩ := inv.own i k held'
    rw [same, free] at atHome
    cases atHome
  -- the chain of a home, with the new cell in it
  have chain : ∀ {i l}, Follows next i l → i ≠ n →
      ∀ j ∈ l, Reaches (linkBehind next (home k) n) i j := by
    intro i l follows other j member
    have fresh := inv.not_mem_of_free free follows other
    refine ⟨_, follows.linkBehind fresh different, List.mem_flatMap.mpr ⟨j, member, ?_⟩⟩
    split
    next here => simp [here]
    next => simp
  have chainNew : Reaches (linkBehind next (home k) n) (home k) n := by
    obtain ⟨l, follows⟩ := inv.ends (home k)
    have fresh := inv.not_mem_of_free free follows different
    exact ⟨_, follows.linkBehind fresh different,
      List.mem_flatMap.mpr ⟨home k, follows.head_mem, by simp⟩⟩
  constructor
  · intro i j link
    rw [Function.update_apply]
    split
    next => exact Option.some_ne_none k
    next other =>
      rcases linkBehind_cases different link with ⟨-, new⟩ | ⟨-, old⟩ | ⟨-, -, old⟩
      · exact absurd new other
      · exact inv.target _ j old
      · exact inv.target _ j old
  · intro i free'
    rw [Function.update_apply] at free'
    split at free'
    next => cases free'
    next other =>
      have notHome : i ≠ home k := by
        rintro rfl
        rw [held] at free'
        cases free'
      rw [linkBehind_other notHome other]
      exact inv.idle i free'
  · intro i j m link link'
    rcases linkBehind_cases different link with ⟨rfl, rfl⟩ | ⟨rfl, old⟩ | ⟨notHome, -, old⟩
    · rcases linkBehind_cases different link' with ⟨rfl, -⟩ | ⟨-, old'⟩ | ⟨-, -, old'⟩
      · rfl
      · exact absurd old' (unlinked _)
      · exact absurd old' (unlinked _)
    · rcases linkBehind_cases different link' with ⟨-, rfl⟩ | ⟨rfl, -⟩ | ⟨notHome, -, old'⟩
      · exact absurd old (unlinked _)
      · rfl
      · exact absurd (inv.single _ _ _ old' old) notHome
    · rcases linkBehind_cases different link' with ⟨-, rfl⟩ | ⟨-, old'⟩ | ⟨-, -, old'⟩
      · exact absurd old (unlinked _)
      · exact absurd (inv.single _ _ _ old old') notHome
      · exact inv.single _ _ _ old old'
  · intro i
    by_cases here : i = n
    · subst here
      obtain ⟨l, follows, member⟩ := chainNew
      obtain ⟨l', follows', -⟩ := follows.suffix member
      exact ⟨l', follows'⟩
    · obtain ⟨l, follows⟩ := inv.ends i
      exact ⟨_, follows.linkBehind (inv.not_mem_of_free free follows here) different⟩
  · intro i k'' held'
    rw [Function.update_apply] at held'
    split at held'
    next here =>
      obtain rfl := Option.some.inj held'
      rw [here]
      exact chainNew
    next =>
      obtain ⟨l, follows, member⟩ := inv.reach i k'' held'
      exact chain follows (homeFree held') i member
  · intro i k'' held'
    rw [Function.update_apply] at held'
    split at held'
    next =>
      obtain rfl := Option.some.inj held'
      exact ⟨k', by rw [Function.update_of_ne different, held], atHome⟩
    next =>
      rw [Function.update_of_ne (homeFree held')]
      exact inv.own i k'' held'
  · intro i j k'' held' held''
    exact inv.once_update absent held' held''

theorem move (inv : Scatter home keyAt next) (absent : ∀ i, keyAt i ≠ some k) {k' : κ}
    (held : keyAt (home k) = some k') (stranger : home k' ≠ home k) (free : keyAt n = none)
    (points : next p = some (home k)) :
    Scatter home (Function.update (Function.update keyAt n (some k')) (home k) (some k))
      (linkInstead next p (home k) n) := by
  have different : home k ≠ n := by
    intro same
    rw [same, free] at held
    cases held
  have freshPoint : p ≠ n := by
    rintro rfl
    rw [inv.idle _ free] at points
    cases points
  have proper : p ≠ home k := by
    rintro rfl
    obtain ⟨l, follows⟩ := inv.ends (home k)
    exact follows.not_mem_of_link points follows.head_mem
  have unlinked : ∀ i, next i ≠ some n := fun i link => inv.target i n link free
  have only : ∀ q, next q = some (home k) → q = p := fun q link => inv.single q p _ link points
  -- no key has the stranger's cell for its home
  have homes : ∀ {i k''}, keyAt i = some k'' → home k'' ≠ home k ∧ home k'' ≠ n := by
    intro i k'' held'
    obtain ⟨k₁, atHome, same⟩ := inv.own i k'' held'
    constructor
    · intro equal
      rw [equal, held] at atHome
      obtain rfl := Option.some.inj atHome
      exact stranger (same.trans equal)
    · intro equal
      rw [equal, free] at atHome
      cases atHome
  have chain : ∀ {i l}, Follows next i l → i ≠ n →
      Follows (linkInstead next p (home k) n) (if i = home k then n else i)
        (l.map fun j => if j = home k then n else j) := by
    intro i l follows other
    exact follows.linkInstead (inv.not_mem_of_free free follows other) different points only freshPoint proper
  have emptied : linkInstead next p (home k) n (home k) = none := by simp [linkInstead]
  have keyCases : ∀ {i k''},
    Function.update (Function.update keyAt n (some k')) (home k) (some k) i = some k'' →
      (i = home k ∧ k'' = k) ∨ (i = n ∧ k'' = k') ∨ (i ≠ home k ∧ i ≠ n ∧ keyAt i = some k'') := by
    intro i k'' held'
    by_cases atHome : i = home k
    · subst atHome
      rw [Function.update_self] at held'
      exact .inl ⟨rfl, (Option.some.inj held').symm⟩
    · rw [Function.update_of_ne atHome] at held'
      by_cases atNew : i = n
      · subst atNew
        rw [Function.update_self] at held'
        exact .inr (.inl ⟨rfl, (Option.some.inj held').symm⟩)
      · rw [Function.update_of_ne atNew] at held'
        exact .inr (.inr ⟨atHome, atNew, held'⟩)
  constructor
  · intro i j link
    rw [Function.update_apply, Function.update_apply]
    split
    next => exact Option.some_ne_none k
    next =>
      split
      next => exact Option.some_ne_none k'
      next other =>
        rcases linkInstead_cases different link with ⟨-, new⟩ | ⟨-, old⟩ | ⟨-, -, -, old⟩
        · exact absurd new other
        · exact inv.target _ j old
        · exact inv.target _ j old
  · intro i free'
    rw [Function.update_apply, Function.update_apply] at free'
    split at free'
    next => cases free'
    next notHome =>
      split at free'
      next => cases free'
      next notNew =>
        have idle := inv.idle i free'
        have notPoint : i ≠ p := by
          rintro rfl
          rw [points] at idle
          cases idle
        rw [linkInstead_other notPoint notHome notNew]
        exact idle
  · intro i j m link link'
    rcases linkInstead_cases different link with ⟨rfl, rfl⟩ | ⟨rfl, old⟩ | ⟨-, notHome, -, old⟩
    · rcases linkInstead_cases different link' with ⟨rfl, -⟩ | ⟨-, old'⟩ | ⟨-, -, -, old'⟩
      · rfl
      · exact absurd old' (unlinked _)
      · exact absurd old' (unlinked _)
    · rcases linkInstead_cases different link' with ⟨-, rfl⟩ | ⟨rfl, -⟩ | ⟨-, notHome, -, old'⟩
      · exact absurd old (unlinked _)
      · rfl
      · exact absurd (inv.single _ _ _ old' old) notHome
    · rcases linkInstead_cases different link' with ⟨-, rfl⟩ | ⟨-, old'⟩ | ⟨-, -, -, old'⟩
      · exact absurd old (unlinked _)
      · exact absurd (inv.single _ _ _ old old') notHome
      · exact inv.single _ _ _ old old'
  · intro i
    by_cases atHome : i = home k
    · rw [atHome]
      exact ⟨_, .last emptied⟩
    · by_cases atNew : i = n
      · obtain ⟨l, follows⟩ := inv.ends (home k)
        have moved := chain follows different
        rw [if_pos rfl] at moved
        rw [atNew]
        exact ⟨_, moved⟩
      · obtain ⟨l, follows⟩ := inv.ends i
        have kept := chain follows atNew
        rw [if_neg atHome] at kept
        exact ⟨_, kept⟩
  · intro i k'' held'
    rcases keyCases held' with ⟨rfl, rfl⟩ | ⟨rfl, rfl⟩ | ⟨notHome, notNew, old⟩
    · exact ⟨_, .last emptied, List.mem_singleton_self _⟩
    · obtain ⟨l, follows, member⟩ := inv.reach (home k) k'' held
      have kept := chain follows (homes held).2
      rw [if_neg stranger] at kept
      exact ⟨_, kept, List.mem_map.mpr ⟨home k, member, if_pos rfl⟩⟩
    · obtain ⟨l, follows, member⟩ := inv.reach i k'' old
      have kept := chain follows (homes old).2
      rw [if_neg (homes old).1] at kept
      exact ⟨_, kept, List.mem_map.mpr ⟨i, member, if_neg notHome⟩⟩
  · intro i k'' held'
    have others : ∀ {i k''}, keyAt i = some k'' →
        ∃ k₁, Function.update (Function.update keyAt n (some k')) (home k) (some k) (home k'') =
          some k₁ ∧
          home k₁ = home k'' := by
      intro i k'' old
      rw [Function.update_of_ne (homes old).1, Function.update_of_ne (homes old).2]
      exact inv.own i k'' old
    rcases keyCases held' with ⟨rfl, rfl⟩ | ⟨rfl, rfl⟩ | ⟨notHome, notNew, old⟩
    · exact ⟨k'', Function.update_self _ _ _, rfl⟩
    · exact others held
    · exact others old
  · intro i j k'' held' held''
    rcases keyCases held' with ⟨rfl, rfl⟩ | ⟨rfl, rfl⟩ | ⟨notHome, notNew, old⟩
    · rcases keyCases held'' with ⟨rfl, -⟩ | ⟨-, rfl⟩ | ⟨-, -, old'⟩
      · rfl
      · exact absurd held (absent _)
      · exact absurd old' (absent _)
    · rcases keyCases held'' with ⟨-, rfl⟩ | ⟨rfl, -⟩ | ⟨notHome, -, old'⟩
      · exact absurd held (absent _)
      · rfl
      · exact absurd (inv.once _ _ _ old' held) notHome
    · rcases keyCases held'' with ⟨-, rfl⟩ | ⟨-, rfl⟩ | ⟨-, -, old'⟩
      · exact absurd old (absent _)
      · exact absurd (inv.once _ _ _ old held) notHome
      · exact inv.once _ _ _ old old'

end Scatter

end Lunatik.Library
