import VaultKernel.Proofs.Outcome

/-!
# Two runs side by side

What it takes for two sequences of steps to go alike. For steps that only compute an answer, the
answers of one are those of the other under a function (`bind_eq_map`, `mapM_eq_map`). For steps
that change a state, `Agrees` relates how two runs end; there is one lemma for each way to put steps
together.
-/

namespace VaultKernel

variable {ε α α' β β' γ γ' : Type}

/-! ## Answers -/

/-- Sequences correspond if their steps do. -/
theorem bind_eq_map {x : Except ε α} {x' : Except ε α'} {f : α → Except ε β} {f' : α' → Except ε β'}
    {g : α → α'} {h : β → β'} (hx : x' = g <$> x) (hf : ∀ a, f' (g a) = h <$> f a) :
    x' >>= f' = h <$> (x >>= f) := by
  subst hx
  cases x with
  | error e => rfl
  | ok a => exact hf a

theorem mapM_eq_map {f : α → Except ε β} {f' : α' → Except ε β'} {g : α → α'} {h : β → β'}
    (hf : ∀ x, f' (g x) = h <$> f x) (xs : List α) :
    (xs.map g).mapM f' = List.map h <$> xs.mapM f := by
  induction xs with
  | nil => rfl
  | cons x xs ih =>
      rw [List.map_cons, List.mapM_cons, List.mapM_cons]
      refine bind_eq_map (hf x) fun y => bind_eq_map ih fun ys => ?_
      rfl

/-- The answers to the same questions. -/
theorem mapM_eq_map_mapM {f : α → Except ε β} {f' : α → Except ε β'} {h : β → β'}
    (hf : ∀ x, f' x = h <$> f x) (xs : List α) : xs.mapM f' = List.map h <$> xs.mapM f := by
  have hmapped := mapM_eq_map (g := id) hf xs
  rwa [List.map_id] at hmapped

/-! ## Runs -/

variable {σ σ' : Type} {excused : ε → Prop}

/-- How two runs may end: one of them fails with a failure that does not count, both fail with the
same one, or both succeed as `Q` says. -/
inductive Agrees (excused : ε → Prop) (Q : α → σ → α' → σ' → Prop) :
    EStateM.Result ε σ α → EStateM.Result ε σ' α' → Prop where
  | excusedLeft {e : ε} {s : σ} {run' : EStateM.Result ε σ' α'} : excused e →
      Agrees excused Q (.error e s) run'
  | excusedRight {run : EStateM.Result ε σ α} {e : ε} {s' : σ'} : excused e →
      Agrees excused Q run (.error e s')
  | failed (e : ε) (s : σ) (s' : σ') : Agrees excused Q (.error e s) (.error e s')
  | done {a : α} {s : σ} {a' : α'} {s' : σ'} : Q a s a' s' → Agrees excused Q (.ok a s) (.ok a' s')

variable {Q : β → σ → β' → σ' → Prop} {s : σ} {s' : σ'}

theorem Agrees.imp {run : EStateM.Result ε σ α} {run' : EStateM.Result ε σ' α'}
    {Q Q' : α → σ → α' → σ' → Prop} (h : Agrees excused Q run run')
    (hQ : ∀ a s a' s', Q a s a' s' → Q' a s a' s') : Agrees excused Q' run run' := by
  cases h with
  | excusedLeft he => exact .excusedLeft he
  | excusedRight he => exact .excusedRight he
  | failed e s s' => exact .failed e s s'
  | done hdone => exact .done (hQ _ _ _ _ hdone)

/-- Each run goes on where its first step ended. -/
theorem Agrees.bind {x : EStateM ε σ α} {x' : EStateM ε σ' α'} {f : α → EStateM ε σ β}
    {f' : α' → EStateM ε σ' β'} {R : α → σ → α' → σ' → Prop} (hx : Agrees excused R (x s) (x' s'))
    (hf : ∀ a t a' t', R a t a' t' → Agrees excused Q (f a t) (f' a' t')) :
    Agrees excused Q ((x >>= f) s) ((x' >>= f') s') := by
  generalize hrun : x s = run at hx
  generalize hrun' : x' s' = run' at hx
  cases hx with
  | excusedLeft he =>
      rw [bind_of_eq_error hrun]
      exact .excusedLeft he
  | excusedRight he =>
      rw [bind_of_eq_error hrun']
      exact .excusedRight he
  | failed e t t' =>
      rw [bind_of_eq_error hrun, bind_of_eq_error hrun']
      exact .failed e t t'
  | done hdone =>
      rw [bind_of_eq_ok hrun rfl, bind_of_eq_ok hrun' rfl]
      exact hf _ _ _ _ hdone

theorem Agrees.map {x : EStateM ε σ α} {x' : EStateM ε σ' α'} {f : α → β} {f' : α' → β'}
    (hx : Agrees excused (fun a t a' t' => Q (f a) t (f' a') t') (x s) (x' s')) :
    Agrees excused Q ((f <$> x) s) ((f' <$> x') s') := by
  rw [map_eq_pure_bind, map_eq_pure_bind]
  exact hx.bind fun a t a' t' h => .done h

/-! ## Loops -/

/-- Loops over lists of which one is the image of the other. -/
theorem Agrees.forM {xs : List γ} {xs' : List γ'} {g : γ → γ'} {f : γ → EStateM ε σ PUnit}
    {f' : γ' → EStateM ε σ' PUnit} {I : σ → σ' → Prop} (hxs : xs' = xs.map g)
    (hstep : ∀ x s s', x ∈ xs → I s s' →
      Agrees excused (fun _ t _ t' => I t t') (f x s) (f' (g x) s')) (hs : I s s') :
    Agrees excused (fun _ t _ t' => I t t') (xs.forM f s) (xs'.forM f' s') := by
  subst hxs
  induction xs generalizing s s' with
  | nil => exact .done hs
  | cons x xs ih =>
      show Agrees excused _ ((f x >>= fun _ => xs.forM f) s)
        ((f' (g x) >>= fun _ => (xs.map g).forM f') s')
      exact (hstep x s s' (by simp) hs).bind fun _ t _ t' ht =>
        ih (fun y t t' hy => hstep y t t' (by simp [hy])) ht

/-- The answers of one loop are the images of those of the other. -/
theorem Agrees.mapM {xs : List γ} {xs' : List γ'} {g : γ → γ'} {h : β → β'} {f : γ → EStateM ε σ β}
    {f' : γ' → EStateM ε σ' β'} {I : σ → σ' → Prop} {P : β → Prop} (hxs : xs' = xs.map g)
    (hstep : ∀ x s s', x ∈ xs → I s s' →
      Agrees excused (fun y t y' t' => I t t' ∧ y' = h y ∧ P y) (f x s) (f' (g x) s'))
    (hs : I s s') :
    Agrees excused (fun ys t ys' t' => I t t' ∧ ys' = ys.map h ∧ ∀ y ∈ ys, P y) (xs.mapM f s)
      (xs'.mapM f' s') := by
  subst hxs
  induction xs generalizing s s' with
  | nil => exact .done ⟨hs, rfl, by simp⟩
  | cons x xs ih =>
      rw [List.map_cons, List.mapM_cons, List.mapM_cons]
      refine (hstep x s s' (by simp) hs).bind fun y t y' t' hy => ?_
      obtain ⟨ht, rfl, hP⟩ := hy
      refine (ih (fun z t t' hz => hstep z t t' (by simp [hz])) ht).bind fun ys t ys' t' hys => ?_
      obtain ⟨ht, rfl, hall⟩ := hys
      refine .done ⟨ht, rfl, fun z hz => ?_⟩
      rcases List.mem_cons.1 hz with rfl | hz
      · exact hP
      · exact hall z hz

end VaultKernel
