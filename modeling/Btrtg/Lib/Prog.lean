/-!
# Programs with faults over a global state

A C function over global variables is a `Prog`: it runs on a state and
gives a value or a fault together with the state it leaves behind, so what
was written before a fault stays visible.

`Triple` is the two-sided Hoare triple of one run; `Keeps` is the frame rule
for a relation that every run respects, whichever way it ends.
-/

abbrev Prog (ε σ : Type) := ExceptT ε (StateM σ)

namespace Prog

variable {ε σ α β : Type}

-- ---------------------------------------------------------------------------
-- Runs
-- ---------------------------------------------------------------------------

theorem run_bind (m : Prog ε σ α) (f : α → Prog ε σ β) (s : σ) :
    (m >>= f).run s = match m.run s with
      | (.ok a, s') => (f a).run s'
      | (.error e, s') => (.error e, s') := by
  simp only [bind, ExceptT.bind, ExceptT.run, ExceptT.mk, StateT.bind]
  rcases m s with ⟨_ | _, _⟩ <;> rfl

theorem run_bind_ok {m : Prog ε σ α} {f : α → Prog ε σ β} {s s' : σ} {a : α}
    (h : m.run s = (.ok a, s')) : (m >>= f).run s = (f a).run s' := by
  rw [run_bind, h]

theorem run_bind_error {m : Prog ε σ α} {f : α → Prog ε σ β} {s s' : σ} {e : ε}
    (h : m.run s = (.error e, s')) : (m >>= f).run s = (.error e, s') := by
  rw [run_bind, h]

@[simp] theorem run_pure (a : α) (s : σ) : (pure a : Prog ε σ α).run s = (.ok a, s) := rfl

@[simp] theorem run_get (s : σ) : (get : Prog ε σ σ).run s = (.ok s, s) := rfl

@[simp] theorem run_set (s s' : σ) : (set s' : Prog ε σ PUnit).run s = (.ok (), s') := rfl

@[simp] theorem run_modify (f : σ → σ) (s : σ) :
    (modify f : Prog ε σ PUnit).run s = (.ok (), f s) := rfl

@[simp] theorem run_throw (e : ε) (s : σ) :
    (throw e : Prog ε σ α).run s = (.error e, s) := rfl

theorem run_eq {m : Prog ε σ α} {s : σ} {r : Except ε α} (h : (m.run s).1 = r) :
    m.run s = (r, (m.run s).2) := by
  cases h
  rfl

/-- A run of a sequence that succeeds went through a run of its first part. -/
theorem bind_ok {m : Prog ε σ α} {f : α → Prog ε σ β} {s s'' : σ} {b : β} :
    (m >>= f).run s = (.ok b, s'') ↔
      ∃ a s', m.run s = (.ok a, s') ∧ (f a).run s' = (.ok b, s'') := by
  rw [run_bind]
  rcases m.run s with ⟨_ | a, s'⟩
  · constructor
    · exact fun h => nomatch h
    · exact fun ⟨_, _, h, _⟩ => nomatch h
  · constructor
    · exact fun h => ⟨a, s', rfl, h⟩
    · rintro ⟨_, _, h, hf⟩
      cases h
      exact hf

-- ---------------------------------------------------------------------------
-- Triples
-- ---------------------------------------------------------------------------

/-- The run of `m` from `s` satisfies `Q` when it succeeds and `E` when it faults. -/
def Triple (m : Prog ε σ α) (s : σ) (Q : α → σ → Prop) (E : ε → σ → Prop) : Prop :=
  match m.run s with
  | (.ok a, s') => Q a s'
  | (.error e, s') => E e s'

section
variable {m : Prog ε σ α} {f : α → Prog ε σ β} {s : σ}

theorem Triple.of_run {s' : σ} {a : α} {Q E} (h : m.run s = (.ok a, s')) (hq : Q a s') :
    Triple m s Q E := by
  simpa only [Triple, h] using hq

theorem Triple.bind {P : α → σ → Prop} {Q : β → σ → Prop} {E : ε → σ → Prop}
    (hm : Triple m s P E) (hf : ∀ a s', P a s' → Triple (f a) s' Q E) :
    Triple (m >>= f) s Q E := by
  unfold Triple at *
  rw [run_bind]
  rcases hr : m.run s with ⟨_ | a, s'⟩ <;> simp only [hr] at hm ⊢
  · exact hm
  · exact hf a s' hm

/-- After a run of the first part that succeeds. -/
theorem Triple.bind_run {s' : σ} {a : α} {Q : β → σ → Prop} {E : ε → σ → Prop}
    (h : m.run s = (.ok a, s')) (hf : Triple (f a) s' Q E) : Triple (m >>= f) s Q E := by
  unfold Triple at *
  rwa [run_bind_ok h]

theorem Triple.mono {P Q : α → σ → Prop} {E F : ε → σ → Prop} (hm : Triple m s P E)
    (hq : ∀ a s', P a s' → Q a s') (he : ∀ e s', E e s' → F e s') : Triple m s Q F := by
  unfold Triple at *
  rcases hr : m.run s with ⟨_ | a, s'⟩ <;> simp only [hr] at hm ⊢
  · exact he _ _ hm
  · exact hq _ _ hm

theorem Triple.and {P Q : α → σ → Prop} {E F : ε → σ → Prop} (hm : Triple m s P E)
    (hm' : Triple m s Q F) : Triple m s (fun a s' => P a s' ∧ Q a s') fun e s' => E e s' ∧ F e s' := by
  unfold Triple at *
  rcases hr : m.run s with ⟨_ | a, s'⟩ <;> simp only [hr] at hm hm' ⊢ <;> exact ⟨hm, hm'⟩

theorem Triple.run_ok {s' : σ} {a : α} {Q E} (hm : Triple m s Q E) (h : m.run s = (.ok a, s')) :
    Q a s' := by
  simpa only [Triple, h] using hm

end

-- ---------------------------------------------------------------------------
-- Frames
-- ---------------------------------------------------------------------------

/-- Every run of `m` relates its first state to its last by `R`, and faults only with
`E`. -/
def Keeps (R : σ → σ → Prop) (E : ε → Prop) (m : Prog ε σ α) : Prop :=
  ∀ s, R s (m.run s).2 ∧ ∀ e, (m.run s).1 = .error e → E e

theorem Keeps.of_run {R : σ → σ → Prop} {E : ε → Prop} {m : Prog ε σ α} {s s' : σ}
    {r : Except ε α} (h : Keeps R E m) (hr : m.run s = (r, s')) : R s s' := by
  have := (h s).1
  rwa [hr] at this

theorem Keeps.bind {R : σ → σ → Prop} {E : ε → Prop} {m : Prog ε σ α} {f : α → Prog ε σ β}
    (hm : Keeps R E m) (trans : ∀ a b c, R a b → R b c → R a c) (hf : ∀ a, Keeps R E (f a)) :
    Keeps R E (m >>= f) := by
  intro s
  obtain ⟨hr, he⟩ := hm s
  rw [run_bind]
  rcases hs : m.run s with ⟨e | a, s'⟩ <;> rw [hs] at hr he
  · exact ⟨hr, fun e' h => he e' (by cases h; rfl)⟩
  · exact ⟨trans _ _ _ hr (hf a s').1, (hf a s').2⟩

theorem Keeps.triple {R : σ → σ → Prop} {E : ε → Prop} {m : Prog ε σ α} (h : Keeps R E m) (s : σ) :
    Triple m s (fun _ s' => R s s') fun _ s' => R s s' := by
  have h' := (h s).1
  unfold Triple
  rcases hr : m.run s with ⟨e | a, s'⟩ <;> rw [hr] at h' <;> exact h'

/-- `m` is put together from programs in `prim`, reads of the state and faults in `E`. -/
inductive Uses (prim : (α : Type) → Prog ε σ α → Prop) (E : ε → Prop) :
    {α : Type} → Prog ε σ α → Prop
  | prim {α : Type} {m : Prog ε σ α} : prim α m → Uses prim E m
  | pure {α : Type} (a : α) : Uses prim E (Pure.pure a)
  | throw {α : Type} {e : ε} : E e → Uses prim E (MonadExcept.throw e : Prog ε σ α)
  | get : Uses prim E MonadState.get
  | bind {α β : Type} {m : Prog ε σ α} {f : α → Prog ε σ β} : Uses prim E m →
      (∀ a, Uses prim E (f a)) → Uses prim E (m >>= f)

/-- A property that holds of reads and faults and that sequencing keeps. -/
structure Closed (E : ε → Prop) (K : (α : Type) → Prog ε σ α → Prop) : Prop where
  pure : ∀ {α : Type} (a : α), K α (Pure.pure a)
  throw : ∀ {α : Type} {e : ε}, E e → K α (MonadExcept.throw e)
  get : K σ MonadState.get
  bind : ∀ {α β : Type} {m : Prog ε σ α} {f : α → Prog ε σ β},
    K α m → (∀ a, K β (f a)) → K β (m >>= f)

/-- Such a property is checked on the parts. -/
theorem Uses.of_closed {prim : (α : Type) → Prog ε σ α → Prop} {E : ε → Prop}
    {K : (α : Type) → Prog ε σ α → Prop} {m : Prog ε σ α} (h : Uses prim E m) (hK : Closed E K)
    (hp : ∀ {α : Type} (m : Prog ε σ α), prim α m → K α m) : K α m := by
  induction h with
  | prim h => exact hp _ h
  | pure a => exact hK.pure a
  | throw he => exact hK.throw he
  | get => exact hK.get
  | bind _ _ ihm ihf => exact hK.bind ihm ihf

theorem closed_keeps {R : σ → σ → Prop} {E E' : ε → Prop} (refl : ∀ s, R s s)
    (trans : ∀ a b c, R a b → R b c → R a c) (hE : ∀ e, E' e → E e) :
    Closed E' fun _ m => Keeps R E m where
  pure a s := ⟨refl s, fun e h => by cases h⟩
  throw he s := by
    refine ⟨refl s, fun e h => ?_⟩
    cases h
    exact hE _ he
  get s := ⟨refl s, fun e h => by cases h⟩
  bind hm hf := hm.bind trans hf

/-- A frame property is checked on the parts. -/
theorem Uses.keeps {prim : (α : Type) → Prog ε σ α → Prop} {R : σ → σ → Prop} {E : ε → Prop}
    {m : Prog ε σ α} (h : Uses prim E m) (refl : ∀ s, R s s)
    (trans : ∀ a b c, R a b → R b c → R a c)
    (hp : ∀ {α : Type} (m : Prog ε σ α), prim α m → Keeps R E m) : Keeps R E m :=
  h.of_closed (closed_keeps refl trans fun _ he => he) hp

/-- Every run of `m` that succeeds relates its first state to its last by `R`. -/
def Yields (R : σ → σ → Prop) (m : Prog ε σ α) : Prop :=
  ∀ s a s', m.run s = (.ok a, s') → R s s'

theorem Keeps.yields {R : σ → σ → Prop} {E : ε → Prop} {m : Prog ε σ α} (h : Keeps R E m) :
    Yields R m := fun _ _ _ hr => h.of_run hr

theorem Yields.bind {R : σ → σ → Prop} {m : Prog ε σ α} {f : α → Prog ε σ β} (hm : Yields R m)
    (trans : ∀ a b c, R a b → R b c → R a c) (hf : ∀ a, Yields R (f a)) : Yields R (m >>= f) := by
  intro s b s'' hr
  obtain ⟨a, s', h, h'⟩ := bind_ok.1 hr
  exact trans _ _ _ (hm s a s' h) (hf a s' b s'' h')

theorem closed_yields {R : σ → σ → Prop} {E : ε → Prop} (refl : ∀ s, R s s)
    (trans : ∀ a b c, R a b → R b c → R a c) :
    Closed E fun _ (m : Prog ε σ _) => Yields R m where
  pure a s b s' h := by
    cases h
    exact refl s
  throw he s b s' h := by cases h
  get s b s' h := by
    cases h
    exact refl s
  bind hm hf := hm.bind trans hf

/-- From a state with `I`, a run of `m` that succeeds ends with `I` again and relates its
first state to its last by `L`, and one that faults with `e` relates them by `F e`. -/
def Outcomes (I : σ → Prop) (L : σ → σ → Prop) (F : ε → σ → σ → Prop) (m : Prog ε σ α) : Prop :=
  ∀ s, I s → Triple m s (fun _ s' => I s' ∧ L s s') fun e s' => F e s s'

theorem Outcomes.bind {I : σ → Prop} {L : σ → σ → Prop} {F : ε → σ → σ → Prop} {m : Prog ε σ α}
    {f : α → Prog ε σ β} (hm : Outcomes I L F m) (trans : ∀ a b c, L a b → L b c → L a c)
    (after : ∀ e a b c, L a b → F e b c → F e a c) (hf : ∀ a, Outcomes I L F (f a)) :
    Outcomes I L F (m >>= f) := by
  intro s hI
  refine (hm s hI).bind fun a s' ⟨hI', hL⟩ => (hf a s' hI').mono (fun b s'' h => ?_) fun e s'' h => ?_
  · exact ⟨h.1, trans _ _ _ hL h.2⟩
  · exact after _ _ _ _ hL h

theorem closed_outcomes {I : σ → Prop} {L : σ → σ → Prop} {F : ε → σ → σ → Prop} {E : ε → Prop}
    (refl : ∀ s, L s s) (trans : ∀ a b c, L a b → L b c → L a c) (fault : ∀ e s, E e → F e s s)
    (after : ∀ e a b c, L a b → F e b c → F e a c) :
    Closed E fun _ (m : Prog ε σ _) => Outcomes I L F m where
  pure _ s hI := ⟨hI, refl s⟩
  throw he s _ := fault _ s he
  get s hI := ⟨hI, refl s⟩
  bind hm hf := hm.bind trans after hf

/-- Both alike. -/
abbrev Upholds (I : σ → Prop) (L : σ → σ → Prop) (m : Prog ε σ α) : Prop :=
  Outcomes I L (fun _ => L) m

theorem Upholds.bind {I : σ → Prop} {L : σ → σ → Prop} {m : Prog ε σ α} {f : α → Prog ε σ β}
    (hm : Upholds I L m) (trans : ∀ a b c, L a b → L b c → L a c) (hf : ∀ a, Upholds I L (f a)) :
    Upholds I L (m >>= f) :=
  Outcomes.bind hm trans (fun _ => trans) hf

theorem closed_upholds {I : σ → Prop} {L : σ → σ → Prop} {E : ε → Prop} (refl : ∀ s, L s s)
    (trans : ∀ a b c, L a b → L b c → L a c) :
    Closed E fun _ (m : Prog ε σ _) => Upholds I L m :=
  closed_outcomes refl trans (fun _ s _ => refl s) fun _ => trans

theorem Upholds.mono {I : σ → Prop} {L L' : σ → σ → Prop} {m : Prog ε σ α} (h : Upholds I L m)
    (hL : ∀ s s', I s → L s s' → L' s s') : Upholds I L' m := fun s hI =>
  (h s hI).mono (fun _ s' h => ⟨h.1, hL s s' hI h.2⟩) fun _ s' h => hL s s' hI h

/-- Fewer parts and fewer faults. -/
theorem Uses.mono {prim prim' : (α : Type) → Prog ε σ α → Prop} {E E' : ε → Prop}
    {m : Prog ε σ α} (h : Uses prim E m)
    (hp : ∀ {α : Type} (m : Prog ε σ α), prim α m → Uses prim' E' m) (he : ∀ e, E e → E' e) :
    Uses prim' E' m := by
  induction h with
  | prim h => exact hp _ h
  | pure a => exact .pure a
  | throw h => exact .throw (he _ h)
  | get => exact .get
  | bind _ _ ihm ihf => exact .bind ihm ihf

-- ---------------------------------------------------------------------------
-- Pairs of programs
-- ---------------------------------------------------------------------------

/-- From a state with `I` the two programs run alike; a run that succeeds ends with `J`, and
every run relates its first state to its last by `L`. -/
structure Twin (I J : σ → Prop) (L : σ → σ → Prop) (m m' : Prog ε σ α) : Prop where
  run_eq : ∀ s, I s → m.run s = m'.run s
  triple : ∀ s, I s → Triple m s (fun _ s' => J s' ∧ L s s') fun _ s' => L s s'

section
variable {I J K : σ → Prop} {L : σ → σ → Prop} {m m' : Prog ε σ α} {f f' : α → Prog ε σ β}

theorem Upholds.twin (h : Upholds I L m) : Twin I I L m m := ⟨fun _ _ => rfl, h⟩

theorem Twin.bind (hm : Twin I J L m m') (trans : ∀ a b c, L a b → L b c → L a c)
    (hf : ∀ a, Twin J K L (f a) (f' a)) : Twin I K L (m >>= f) (m' >>= f') := by
  refine ⟨fun s hI => ?_, fun s hI => ?_⟩
  · have hend := hm.triple s hI
    unfold Triple at hend
    rw [run_bind, run_bind, ← hm.run_eq s hI]
    rcases hr : m.run s with ⟨e | a, s'⟩
    · rfl
    · rw [hr] at hend
      exact (hf a).run_eq s' hend.1
  · refine (hm.triple s hI).bind fun a s' h => ((hf a).triple s' h.1).mono ?_ ?_
    · exact fun _ s'' h' => ⟨h'.1, trans _ _ _ h.2 h'.2⟩
    · exact fun _ s'' h' => trans _ _ _ h.2 h'

/-- What was read is the state with `I`. -/
theorem Twin.get_bind {f f' : σ → Prog ε σ β} (hf : ∀ s, I s → Twin I J L (f s) (f' s)) :
    Twin I J L (get >>= f) (get >>= f') :=
  ⟨fun s hI => (hf s hI).run_eq s hI, fun s hI => (hf s hI).triple s hI⟩

end

end Prog
