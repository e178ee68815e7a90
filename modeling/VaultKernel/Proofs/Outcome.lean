/-!
# Outcomes

What it takes for a sequence of steps that may fail to succeed: each step succeeds, and the next one
goes on with its answer. For steps that change a state, `Ends` says what holds of the answer and the
state of a run that succeeds and of the state that a failure leaves behind; there is one lemma for
each way to put steps together.
-/

namespace VaultKernel

variable {ε α β : Type}

/-- A sequence succeeds if its steps do. -/
theorem bind_eq_ok {x : Except ε α} {f : α → Except ε β} {b : β} :
    x >>= f = .ok b ↔ ∃ a, x = .ok a ∧ f a = .ok b := by
  cases x with
  | error e =>
      constructor
      · intro h
        cases h
      · rintro ⟨_, h, _⟩
        cases h
  | ok a =>
      constructor
      · intro h
        exact ⟨a, rfl, h⟩
      · rintro ⟨_, h, h'⟩
        cases h
        exact h'

/-- A sequence whose later steps cannot fail succeeds if its first step does. -/
theorem exists_bind_eq_ok {x : Except ε α} {f : α → Except ε β} (hf : ∀ a, ∃ b, f a = .ok b) :
    (∃ b, x >>= f = .ok b) ↔ ∃ a, x = .ok a := by
  constructor
  · rintro ⟨b, h⟩
    obtain ⟨a, ha, _⟩ := bind_eq_ok.1 h
    exact ⟨a, ha⟩
  · rintro ⟨a, ha⟩
    obtain ⟨b, hb⟩ := hf a
    exact ⟨b, bind_eq_ok.2 ⟨a, ha, hb⟩⟩

theorem pure_eq_ok {a b : α} : (pure a : Except ε α) = .ok b ↔ a = b :=
  ⟨fun h => Except.ok.inj h, fun h => congrArg Except.ok h⟩

theorem toOption_eq_some {x : Except ε α} {a : α} : x.toOption = some a ↔ x = .ok a := by
  cases x with
  | error e => simp [Except.toOption]
  | ok b => simp [Except.toOption]

theorem map_eq_ok {x : Except ε α} {f : α → β} {b : β} :
    f <$> x = .ok b ↔ ∃ a, x = .ok a ∧ f a = b := by
  cases x with
  | error e =>
      constructor
      · intro h
        cases h
      · rintro ⟨_, h, _⟩
        cases h
  | ok a =>
      constructor
      · intro h
        exact ⟨a, rfl, Except.ok.inj h⟩
      · rintro ⟨_, h, h'⟩
        cases h
        exact congrArg Except.ok h'

/-- Each answer of a list of steps is the answer of a step. -/
theorem exists_of_mapM_eq_ok {f : α → Except ε β} {xs : List α} {ys : List β}
    (h : xs.mapM f = .ok ys) : ∀ y ∈ ys, ∃ x ∈ xs, f x = .ok y := by
  induction xs generalizing ys with
  | nil =>
      cases h
      simp
  | cons x xs ih =>
      rw [List.mapM_cons, bind_eq_ok] at h
      obtain ⟨first, hfirst, hrest⟩ := h
      obtain ⟨rest, hothers, heq⟩ := bind_eq_ok.1 hrest
      cases pure_eq_ok.1 heq
      intro y hy
      rcases List.mem_cons.1 hy with rfl | hy
      · exact ⟨x, by simp, hfirst⟩
      · obtain ⟨x', hx', hy'⟩ := ih hothers y hy
        exact ⟨x', by simp [hx'], hy'⟩

/-- A sequence fails if one of its steps does. -/
theorem bind_eq_error {x : Except ε α} {f : α → Except ε β} {e : ε} :
    x >>= f = .error e ↔ x = .error e ∨ ∃ a, x = .ok a ∧ f a = .error e := by
  cases x with
  | error e' =>
      constructor
      · intro h
        exact Or.inl (congrArg Except.error (Except.error.inj h))
      · rintro (h | ⟨_, h, _⟩)
        · exact congrArg Except.error (Except.error.inj h)
        · cases h
  | ok a =>
      constructor
      · exact fun h => Or.inr ⟨a, rfl, h⟩
      · rintro (h | ⟨_, h, h'⟩)
        · cases h
        · cases h
          exact h'

/-- A changed answer fails as the answer does. -/
theorem map_eq_error {x : Except ε α} {f : α → β} {e : ε} :
    f <$> x = .error e ↔ x = .error e := by
  rw [map_eq_pure_bind, bind_eq_error]
  constructor
  · rintro (h | ⟨_, _, h⟩)
    · exact h
    · cases h
  · exact Or.inl

/-- A map that fails does so at one of its elements. -/
theorem exists_of_mapM_eq_error {f : α → Except ε β} {xs : List α} {e : ε}
    (h : xs.mapM f = .error e) : ∃ x ∈ xs, f x = .error e := by
  induction xs with
  | nil => cases h
  | cons x xs ih =>
      rw [List.mapM_cons] at h
      rcases bind_eq_error.1 h with h | ⟨y, _, h⟩
      · exact ⟨x, by simp, h⟩
      · rcases bind_eq_error.1 h with h | ⟨ys, _, h⟩
        · obtain ⟨x', hx', h⟩ := ih h
          exact ⟨x', by simp [hx'], h⟩
        · cases h

/-- A list of checks succeeds if each of them does. -/
theorem forM_eq_ok {f : α → Except ε Unit} {xs : List α} :
    xs.forM f = .ok () ↔ ∀ x ∈ xs, f x = .ok () := by
  induction xs with
  | nil => exact ⟨fun _ => by simp, fun _ => rfl⟩
  | cons x xs ih =>
      show (f x >>= fun _ => xs.forM f) = .ok () ↔ _
      rw [bind_eq_ok, List.forall_mem_cons, ← ih]
      exact ⟨fun ⟨_, hx, hxs⟩ => ⟨hx, hxs⟩, fun ⟨hx, hxs⟩ => ⟨(), hx, hxs⟩⟩

/-- What every step of a fold keeps holds of its answer. -/
theorem of_foldlM_eq_ok {f : β → α → Except ε β} {P : β → Prop} {xs : List α} {b b' : β}
    (hstep : ∀ b x b', P b → f b x = .ok b' → P b') (hb : P b) (h : xs.foldlM f b = .ok b') :
    P b' := by
  induction xs generalizing b with
  | nil =>
      cases h
      exact hb
  | cons x xs ih =>
      rw [List.foldlM_cons, bind_eq_ok] at h
      obtain ⟨next, hnext, hrest⟩ := h
      exact ih (hstep b x next hb hnext) hrest

/-! ## Runs -/

variable {σ : Type} {Q : β → σ → Prop} {E : σ → Prop} {s : σ}

/-- What holds after a run: `Q` of its answer and state, or `E` of the state if it failed. -/
def Ends (run : EStateM.Result ε σ α) (Q : α → σ → Prop) (E : σ → Prop) : Prop :=
  match run with
  | .ok a s => Q a s
  | .error _ s => E s

instance {run : EStateM.Result ε σ α} {Q : α → σ → Prop} {E : σ → Prop}
    [∀ a s, Decidable (Q a s)] [∀ s, Decidable (E s)] : Decidable (Ends run Q E) :=
  match run with
  | .ok a s => inferInstanceAs (Decidable (Q a s))
  | .error _ s => inferInstanceAs (Decidable (E s))

/-- The state that a run leaves behind, whether it succeeded or not. -/
def stateAfter : EStateM.Result ε σ α → σ
  | .ok _ s => s
  | .error _ s => s

/-- The answer of a run that succeeded. -/
def answerOf? : EStateM.Result ε σ α → Option α
  | .ok a _ => some a
  | .error _ _ => none

/-- A run with an answer succeeded. -/
theorem eq_ok_of_answerOf? {run : EStateM.Result ε σ α} {a : α} (h : answerOf? run = some a) :
    run = .ok a (stateAfter run) := by
  cases run with
  | ok b s =>
      cases h
      rfl
  | error e s => cases h

/-- The failure of a run that failed. -/
def failureOf? : EStateM.Result ε σ α → Option ε
  | .ok _ _ => none
  | .error e _ => some e

/-- A run with a failure failed. -/
theorem eq_error_of_failureOf? {run : EStateM.Result ε σ α} {e : ε} (h : failureOf? run = some e) :
    run = .error e (stateAfter run) := by
  cases run with
  | ok a s => cases h
  | error e' s =>
      cases h
      rfl

theorem ends_iff {run : EStateM.Result ε σ α} : Ends run (fun _ => E) E ↔ E (stateAfter run) := by
  cases run <;> rfl

/-- What holds of all answers and states holds of a run. -/
theorem Ends.of_forall {run : EStateM.Result ε σ α} {Q : α → σ → Prop} (hQ : ∀ a s, Q a s)
    (hE : ∀ s, E s) : Ends run Q E := by
  cases run with
  | ok a s => exact hQ a s
  | error e s => exact hE s

/-- Nothing much holds of every run. -/
theorem Ends.trivial (run : EStateM.Result ε σ α) : Ends run (fun _ _ => True) fun _ => True :=
  .of_forall (fun _ _ => True.intro) fun _ => True.intro

/-- What holds after a run may be weakened, whether it succeeds or fails. -/
theorem Ends.mono {run : EStateM.Result ε σ α} {Q Q' : α → σ → Prop} {E E' : σ → Prop}
    (hrun : Ends run Q E) (hQ : ∀ a s, Q a s → Q' a s) (hE : ∀ s, E s → E' s) : Ends run Q' E' := by
  cases run with
  | ok a s => exact hQ a s hrun
  | error e s => exact hE s hrun

/-- What holds after a run that succeeds may be weakened on its own. -/
theorem Ends.imp {run : EStateM.Result ε σ α} {Q Q' : α → σ → Prop} (hrun : Ends run Q E)
    (hQ : ∀ a s, Q a s → Q' a s) : Ends run Q' E :=
  hrun.mono hQ fun _ => id

/-- Two things that hold after a run hold together. -/
theorem Ends.and {run : EStateM.Result ε σ α} {Q Q' : α → σ → Prop} {E E' : σ → Prop}
    (hrun : Ends run Q E) (hrun' : Ends run Q' E') :
    Ends run (fun a s => Q a s ∧ Q' a s) fun s => E s ∧ E' s := by
  cases run with
  | ok a s => exact ⟨hrun, hrun'⟩
  | error e s => exact ⟨hrun, hrun'⟩

theorem Ends.pure {a : α} {Q : α → σ → Prop} (h : Q a s) :
    Ends ((pure a : EStateM ε σ α) s) Q E := h

/-- A sequence is a success of its first step and what follows, or the failure of that step. -/
theorem of_bind {P : EStateM.Result ε σ β → Prop} {x : EStateM ε σ α} {f : α → EStateM ε σ β}
    (hok : ∀ a s', x s = .ok a s' → P (f a s'))
    (herror : ∀ e s', x s = .error e s' → P (.error e s')) :
    P ((x >>= f) s) := by
  show P (EStateM.bind x f s)
  unfold EStateM.bind
  cases hrun : x s with
  | ok a s' => exact hok a s' hrun
  | error e s' => exact herror e s' hrun

/-- A run goes on from where its first step succeeded. -/
theorem bind_of_eq_ok {x : EStateM ε σ α} {f : α → EStateM ε σ β} {a : α} {s' : σ}
    {result : EStateM.Result ε σ β} (hx : x s = .ok a s') (hf : f a s' = result) :
    (x >>= f) s = result := by
  show EStateM.bind x f s = result
  unfold EStateM.bind
  rw [hx]
  exact hf

/-- A run ends where its first step fails. -/
theorem bind_of_eq_error {x : EStateM ε σ α} {f : α → EStateM ε σ β} {e : ε} {s' : σ}
    (hx : x s = .error e s') : (x >>= f) s = .error e s' := by
  show EStateM.bind x f s = .error e s'
  unfold EStateM.bind
  rw [hx]

/-- A run that succeeds did so in its first step, and then in the rest. -/
theorem bind_ok_cases {x : EStateM ε σ α} {f : α → EStateM ε σ β} {b : β} {s' : σ}
    (h : (x >>= f) s = .ok b s') : ∃ a s₁, x s = .ok a s₁ ∧ f a s₁ = .ok b s' := by
  revert h
  refine of_bind (P := fun result => result = .ok b s' → _) (fun a s₁ hx h => ?_) ?_
  · exact ⟨a, s₁, hx, h⟩
  · intro e₁ s₁ _ h
    cases h

/-- A run that fails does so in its first step or in the rest. -/
theorem bind_error_cases {x : EStateM ε σ α} {f : α → EStateM ε σ β} {e : ε} {s' : σ}
    (h : (x >>= f) s = .error e s') :
    x s = .error e s' ∨ ∃ a s₁, x s = .ok a s₁ ∧ f a s₁ = .error e s' := by
  revert h
  refine of_bind (P := fun result => result = .error e s' → _) (fun a s₁ hx h => ?_) ?_
  · exact Or.inr ⟨a, s₁, hx, h⟩
  · intro e₁ s₁ hx h
    cases h
    exact Or.inl hx

/-- A step goes on where another one ended; it may rely on how that one went. -/
theorem Ends.bind_split {x : EStateM ε σ α} {f : α → EStateM ε σ β} {R : α → σ → Prop}
    (hx : Ends (x s) R E) (hf : ∀ a s', x s = .ok a s' → R a s' → Ends (f a s') Q E) :
    Ends ((x >>= f) s) Q E := by
  refine of_bind (P := fun result => Ends result Q E) (fun a s' hrun => ?_) fun e s' hrun => ?_
  · rw [hrun] at hx
    exact hf a s' hrun hx
  · rw [hrun] at hx
    exact hx

/-- What holds after a run holds because its first step ends so and the rest goes on from there.
-/
theorem Ends.bind {x : EStateM ε σ α} {f : α → EStateM ε σ β} {R : α → σ → Prop}
    (hx : Ends (x s) R E) (hf : ∀ a s', R a s' → Ends (f a s') Q E) : Ends ((x >>= f) s) Q E :=
  hx.bind_split fun a s' _ => hf a s'

/-- What holds of a changed answer holds of the answer that it came from. -/
theorem Ends.map {x : EStateM ε σ α} {f : α → β} (hx : Ends (x s) (fun a => Q (f a)) E) :
    Ends ((f <$> x) s) Q E := by
  show Ends (EStateM.map f x s) Q E
  unfold EStateM.map
  cases hrun : x s with
  | ok a s' =>
      rw [hrun] at hx
      exact hx
  | error e s' =>
      rw [hrun] at hx
      exact hx

/-! ## Loops -/

/-- What every step of a fold keeps holds after the fold; a step may rely on where the fold is. -/
theorem Ends.foldlM_split {xs : List α} {f : β → α → EStateM ε σ β} {b : β}
    (hstep : ∀ before x after b' s', xs = before ++ x :: after →
      before.foldlM f b s = .ok b' s' → Q b' s' → Ends (f b' x s') Q E) (hb : Q b s) :
    Ends (xs.foldlM f b s) Q E := by
  induction xs generalizing b s with
  | nil => exact hb
  | cons x xs ih =>
      have hfirst := hstep [] x xs b s rfl rfl hb
      rw [List.foldlM_cons]
      refine hfirst.bind_split fun b' s' hrun hb' =>
        ih (fun before y after b'' s'' hxs hfold => ?_) hb'
      refine hstep (x :: before) y after b'' s'' (by rw [hxs]; rfl) ?_
      rw [List.foldlM_cons]
      exact bind_of_eq_ok hrun hfold

/-- What every step of a fold keeps holds after the fold. -/
theorem Ends.foldlM {xs : List α} {f : β → α → EStateM ε σ β} {b : β}
    (hstep : ∀ b x s, x ∈ xs → Q b s → Ends (f b x s) Q E) (hb : Q b s) :
    Ends (xs.foldlM f b s) Q E :=
  .foldlM_split (fun _ x _ b' s' hxs _ => hstep b' x s' (by simp [hxs])) hb

/-- A loop establishes what each round adds to what the rounds before it established. -/
theorem Ends.forM {xs : List α} {f : α → EStateM ε σ PUnit} (I : List α → σ → Prop)
    (done : List α)
    (hstep : ∀ done x s, x ∈ xs → I done s → Ends (f x s) (fun _ => I (x :: done)) E)
    (hs : I done s) : Ends (xs.forM f s) (fun _ => I (xs.reverse ++ done)) E := by
  induction xs generalizing done s with
  | nil => exact hs
  | cons x xs ih =>
      show Ends ((f x >>= fun _ => xs.forM f) s) _ E
      refine (hstep done x s (by simp) hs).bind fun _ s' hs' => ?_
      rw [List.reverse_cons, List.append_assoc]
      exact ih _ (fun done' y s'' hy => hstep done' y s'' (by simp [hy])) hs'

/-- A loop of checks leaves the state alone. -/
theorem Ends.forM_check {xs : List α} {f : α → EStateM ε σ PUnit}
    (hstep : ∀ x ∈ xs, Ends (f x s) (fun _ s' => s' = s) E) :
    Ends (xs.forM f s) (fun _ s' => s' = s) E := by
  induction xs with
  | nil => rfl
  | cons x xs ih =>
      show Ends ((f x >>= fun _ => xs.forM f) s) _ E
      refine (hstep x (by simp)).bind fun _ s' hs' => ?_
      subst s'
      exact ih fun y hy => hstep y (by simp [hy])

/-- A loop that keeps a property of the state relates each answer to its step. -/
theorem Ends.mapM {xs : List α} {f : α → EStateM ε σ β} {I : σ → Prop} {R : α → β → Prop}
    (hstep : ∀ x s, x ∈ xs → I s → Ends (f x s) (fun y s' => I s' ∧ R x y) E) (hs : I s) :
    Ends (xs.mapM f s) (fun ys s' => I s' ∧ ∀ y ∈ ys, ∃ x ∈ xs, R x y) E := by
  induction xs generalizing s with
  | nil => exact ⟨hs, by simp⟩
  | cons x xs ih =>
      rw [List.mapM_cons]
      refine (hstep x s (by simp) hs).bind fun y s' hy => ?_
      refine (ih (fun x' s'' hx' => hstep x' s'' (by simp [hx'])) hy.1).bind fun ys s'' hys => ?_
      refine ⟨hys.1, fun y' hy' => ?_⟩
      rcases List.mem_cons.1 hy' with rfl | hy'
      · exact ⟨x, by simp, hy.2⟩
      · obtain ⟨x', hx', hR⟩ := hys.2 y' hy'
        exact ⟨x', by simp [hx'], hR⟩

/-! ## Failures -/

variable {P : ε → Prop}

/-- A run fails with nothing but what satisfies `P`. -/
def FailsOnly (P : ε → Prop) (run : EStateM ε σ α) : Prop :=
  ∀ s e s', run s = .error e s' → P e

theorem FailsOnly.pure (a : α) : FailsOnly P (pure a : EStateM ε σ α) := by
  intro s e s' h
  cases h

/-- A sequence fails as its steps do. -/
theorem FailsOnly.bind {x : EStateM ε σ α} {f : α → EStateM ε σ β} (hx : FailsOnly P x)
    (hf : ∀ a, FailsOnly P (f a)) : FailsOnly P (x >>= f) := by
  intro s e s' h
  rcases bind_error_cases h with h | ⟨a, s₁, _, h⟩
  · exact hx s e s' h
  · exact hf a s₁ e s' h

/-- Changing the answer adds no failure. -/
theorem FailsOnly.map {x : EStateM ε σ α} (f : α → β) (hx : FailsOnly P x) :
    FailsOnly P (f <$> x) := by
  rw [map_eq_pure_bind]
  exact hx.bind fun a => .pure (f a)

/-- A fold fails as its steps do. -/
theorem FailsOnly.foldlM {f : β → α → EStateM ε σ β} (hf : ∀ b x, FailsOnly P (f b x))
    (xs : List α) (b : β) : FailsOnly P (xs.foldlM f b) := by
  induction xs generalizing b with
  | nil => exact .pure b
  | cons x xs ih =>
      rw [List.foldlM_cons]
      exact (hf b x).bind ih

/-- A loop fails as its rounds do. -/
theorem FailsOnly.forM {f : α → EStateM ε σ PUnit} (hf : ∀ x, FailsOnly P (f x)) (xs : List α) :
    FailsOnly P (xs.forM f) := by
  induction xs with
  | nil => exact .pure _
  | cons x xs ih => exact (hf x).bind fun _ => ih

/-- A map fails as its calls do. -/
theorem FailsOnly.mapM {f : α → EStateM ε σ β} (hf : ∀ x, FailsOnly P (f x)) (xs : List α) :
    FailsOnly P (xs.mapM f) := by
  induction xs with
  | nil => exact .pure _
  | cons x xs ih =>
      rw [List.mapM_cons]
      exact (hf x).bind fun y => ih.bind fun ys => .pure _

/-- If a run fails, then with a failure and a state that satisfy `P`. -/
def FailsAs (P : ε → σ → Prop) (run : EStateM.Result ε σ α) : Prop :=
  ∀ e s, run = .error e s → P e s

/-- A bound on the failures in every state is one in the state at hand. -/
theorem FailsAs.of_failsOnly {P' : ε → σ → Prop} {run : EStateM ε σ α} (hrun : FailsOnly P run)
    (hP : ∀ e s, P e → P' e s) : FailsAs P' (run s) :=
  fun e s' h => hP e s' (hrun s e s' h)

/-- A run that does not fail. -/
theorem FailsAs.of_ends {P' : ε → σ → Prop} {run : EStateM.Result ε σ α} {Q : α → σ → Prop}
    (hrun : Ends run Q fun _ => False) : FailsAs P' run := by
  rintro e s rfl
  exact hrun.elim

/-- A sequence fails as its first step does, or as the rest does where that step ends. -/
theorem FailsAs.bind {P' : ε → σ → Prop} {x : EStateM ε σ α} {f : α → EStateM ε σ β}
    {R : α → σ → Prop} (hfails : FailsAs P' (x s)) (hx : Ends (x s) R E)
    (hf : ∀ a s', R a s' → FailsAs P' (f a s')) : FailsAs P' ((x >>= f) s) := by
  intro e s' h
  rcases bind_error_cases h with h | ⟨a, s₁, hrun, h⟩
  · exact hfails e s' h
  · rw [hrun] at hx
    exact hf a s₁ hx e s' h

/-- A loop fails as its rounds do in the states that it goes through. -/
theorem FailsAs.forM {P' : ε → σ → Prop} {xs : List α} {f : α → EStateM ε σ PUnit} (I : σ → Prop)
    (hstep : ∀ x s, x ∈ xs → I s → FailsAs P' (f x s) ∧ Ends (f x s) (fun _ => I) E) (hs : I s) :
    FailsAs P' (xs.forM f s) := by
  induction xs generalizing s with
  | nil =>
      intro e s' h
      cases h
  | cons x xs ih =>
      obtain ⟨hfails, hends⟩ := hstep x s (by simp) hs
      exact hfails.bind hends fun _ s' hs' => ih (fun y s hy => hstep y s (by simp [hy])) hs'

/-- A fold fails where one of its steps does. -/
theorem foldlM_eq_error {f : β → α → EStateM ε σ β} {xs : List α} {b : β} {e : ε} {s' : σ}
    (h : xs.foldlM f b s = .error e s') :
    ∃ before x after b' s₁, xs = before ++ x :: after ∧ before.foldlM f b s = .ok b' s₁ ∧
      f b' x s₁ = .error e s' := by
  induction xs generalizing b s with
  | nil => cases h
  | cons x xs ih =>
      rw [List.foldlM_cons] at h
      rcases bind_error_cases h with h | ⟨b₁, s₁, hfirst, h⟩
      · exact ⟨[], x, xs, b, s, rfl, rfl, h⟩
      · obtain ⟨before, y, after, b', s₂, rfl, hfold, hlast⟩ := ih h
        refine ⟨x :: before, y, after, b', s₂, rfl, ?_, hlast⟩
        rw [List.foldlM_cons]
        exact bind_of_eq_ok hfirst hfold

end VaultKernel
