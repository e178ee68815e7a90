import VaultKernel.Proofs.Class.References

/-!
# Well-formed classes

`Class.Formed` collects what holds of a class once its members are in place: what it refers to, the
shape of its methods, and that it lacks nothing. Completing, attaching aspects and linking each keep
it or take it one step further.
-/

namespace VaultKernel

/-- A class whose references all satisfy `ok` and whose methods have the right shape. -/
structure Class.Formed (c : Class) (ok : ClassRef → Prop) (linked : Bool) : Prop where
  parent : ∀ r, c.parent = some r → ok r
  fields : ∀ f ∈ c.fields, ∀ r ∈ f.type.refs, ok r
  methods : ∀ m ∈ c.methods, (∀ r ∈ m.refs, ok r) ∧ m.Shaped linked
  resolved : c.flags.unresolved → c.flags.notCompleted

variable {ok : ClassRef → Prop}

/-- What a class refers to may be said to satisfy less. -/
theorem Class.Formed.mono {c : Class} {ok' : ClassRef → Prop} {linked : Bool}
    (hc : c.Formed ok linked) (hok : ∀ r, ok r → ok' r) : c.Formed ok' linked :=
  ⟨fun r hr => hok r (hc.parent r hr), fun f hf r hr => hok r (hc.fields f hf r hr),
    fun m hm => ⟨fun r hr => hok r ((hc.methods m hm).1 r hr), (hc.methods m hm).2⟩, hc.resolved⟩

/-- All that a class refers to satisfies the condition. -/
theorem Class.Formed.refs {c : Class} {linked : Bool} (hc : c.Formed ok linked) :
    ∀ r ∈ c.refs, ok r := by
  intro r hr
  rcases List.mem_append.1 hr with hr | hr
  · obtain ⟨f, hf, hr⟩ := List.mem_flatMap.1 hr
    exact hc.fields f hf r hr
  · obtain ⟨m, hm, hr⟩ := List.mem_flatMap.1 hr
    exact (hc.methods m hm).1 r hr

/-! ## Aspects -/

/-- A change of one element keeps what the change keeps. -/
theorem forall_of_changeFirst? {α : Type} {p : α → Bool} {f : α → α} {P : α → Prop} {xs ys : List α}
    (hf : ∀ x, P x → P (f x)) (hxs : ∀ x ∈ xs, P x) (h : changeFirst? p f xs = some ys) :
    ∀ y ∈ ys, P y := by
  induction xs generalizing ys with
  | nil => cases h
  | cons x xs ih =>
      have hrest : ∀ x ∈ xs, P x := fun x hx => hxs x (by simp [hx])
      rw [changeFirst?] at h
      split at h
      · cases h
        intro y hy
        rcases List.mem_cons.1 hy with rfl | hy
        · exact hf x (hxs x (by simp))
        · exact hrest y hy
      · obtain ⟨rest, hchanged, rfl⟩ := Option.map_eq_some_iff.1 h
        intro y hy
        rcases List.mem_cons.1 hy with rfl | hy
        · exact hxs _ (by simp)
        · exact ih hrest hchanged y hy

/-- An aspect changes neither what a class is nor what it extends. -/
theorem Class.attach?_frame {c c' : Class} {aspect : Aspect} (h : c.attach? aspect = some c') :
    c'.name = c.name ∧ c'.parent = c.parent ∧ c'.flags = c.flags ∧ c'.token = c.token ∧
      c'.owner = c.owner ∧ c'.layout = c.layout := by
  unfold Class.attach? at h
  split at h
  · split at h <;> cases h <;> exact ⟨rfl, rfl, rfl, rfl, rfl, rfl⟩
  · obtain ⟨methods, _, rfl⟩ := Option.map_eq_some_iff.1 h
    exact ⟨rfl, rfl, rfl, rfl, rfl, rfl⟩
  · obtain ⟨fields, _, rfl⟩ := Option.map_eq_some_iff.1 h
    exact ⟨rfl, rfl, rfl, rfl, rfl, rfl⟩

/-- An aspect leaves a class well formed. -/
theorem Class.Formed.attach {c c' : Class} {aspect : Aspect} {linked : Bool}
    (hc : c.Formed ok linked) (h : c.attach? aspect = some c') : c'.Formed ok linked := by
  unfold Class.attach? at h
  split at h
  · split at h
    · cases h
      exact hc
    · cases h
      exact ⟨hc.parent, hc.fields, hc.methods, hc.resolved⟩
  · obtain ⟨methods, hmethods, rfl⟩ := Option.map_eq_some_iff.1 h
    refine ⟨hc.parent, hc.fields, ?_, hc.resolved⟩
    refine forall_of_changeFirst? ?_ hc.methods hmethods
    exact fun m hm => hm
  · obtain ⟨fields, hfields, rfl⟩ := Option.map_eq_some_iff.1 h
    refine ⟨hc.parent, ?_, hc.methods, hc.resolved⟩
    refine forall_of_changeFirst? ?_ hc.fields hfields
    exact fun f hf => hf

/-! ## Linking -/

/-- Linking a method binds it if it is native and changes nothing else. -/
theorem Method.link_spec {m : Method} (hshaped : m.Shaped false) (hrefs : ∀ r ∈ m.refs, ok r)
    (place : MethodRef) (registry : NativeRegistry) :
    Ends (m.link place registry)
      (fun linked _ => (∀ r ∈ linked.refs, ok r) ∧ linked.Shaped true) fun _ => True := by
  unfold Method.link
  by_cases hnative : m.isNative
  · rw [if_pos hnative]
    have hbind : Ends (m.bind place registry) (fun _ _ => True) fun _ => True := by
      cases m.bind place registry <;> trivial
    refine hbind.bind fun binding registry' _ => ?_
    refine ⟨hrefs, hshaped.1, ?_⟩
    show true = (true && m.flags.has .native)
    rw [Bool.true_and]
    exact hnative.symm
  · rw [if_neg hnative]
    refine ⟨hrefs, hshaped.1, ?_⟩
    rw [hshaped.2, Bool.false_and, Bool.true_and]
    exact (eq_false_of_ne_true hnative).symm

/-- Linking gives each native method its binding, and the others none. -/
theorem linkMethods_spec {ms : List Method} (hms : ∀ m ∈ ms, (∀ r ∈ m.refs, ok r) ∧ m.Shaped false)
    (owner : ClassRef) (index : Nat) (registry : NativeRegistry) :
    Ends (linkMethods owner index ms registry)
      (fun linked _ => ∀ m ∈ linked, (∀ r ∈ m.refs, ok r) ∧ m.Shaped true) fun _ => True := by
  induction ms generalizing index registry with
  | nil => exact fun m hm => nomatch hm
  | cons m ms ih =>
      obtain ⟨hrefs, hshaped⟩ := hms m (by simp)
      refine (Method.link_spec hshaped hrefs ⟨owner, index⟩ registry).bind fun first r hfirst => ?_
      refine (ih (fun m' hm' => hms m' (by simp [hm'])) (index + 1) r).bind fun rest _ hrest => ?_
      intro m' hm'
      rcases List.mem_cons.1 hm' with rfl | hm'
      · exact hfirst
      · exact hrest m' hm'

/-- Linking gives every listed class its methods, of which the native ones are bound. -/
theorem Classes.linked_spec {classes : Classes} {refs : List ClassRef}
    (hclasses : ∀ r ∈ refs, ∀ c, classes.get? r = some c → c.Formed ok false)
    (registry : NativeRegistry) :
    Ends (classes.linked refs registry)
      (fun pairs _ => (∀ p ∈ pairs, p.1 ∈ refs ∧ ∀ m ∈ p.2, (∀ r ∈ m.refs, ok r) ∧ m.Shaped true) ∧
        ∀ r ∈ refs, (classes.get? r).isSome → ∃ p ∈ pairs, p.1 = r) fun _ => True := by
  induction refs generalizing registry with
  | nil => exact ⟨by simp, by simp⟩
  | cons ref refs ih =>
      have hrest := ih fun r hr => hclasses r (by simp [hr])
      rw [Classes.linked]
      cases hc : classes.get? ref with
      | none =>
          refine (hrest registry).mono (fun pairs _ hpairs => ⟨?_, ?_⟩) fun _ _ => trivial
          · intro p hp
            obtain ⟨hmem, hmethods⟩ := hpairs.1 p hp
            exact ⟨by simp [hmem], hmethods⟩
          · intro r hr hlive
            rcases List.mem_cons.1 hr with rfl | hr
            · rw [hc] at hlive
              cases hlive
            · exact hpairs.2 r hr hlive
      | some c =>
          have hmethods := (hclasses ref (by simp) c hc).methods
          refine (linkMethods_spec hmethods ref 0 registry).bind fun methods r hlinked => ?_
          refine (hrest r).bind fun pairs _ hpairs => ⟨?_, ?_⟩
          · intro p hp
            rcases List.mem_cons.1 hp with rfl | hp
            · exact ⟨by simp, hlinked⟩
            · obtain ⟨hmem, hmethods⟩ := hpairs.1 p hp
              exact ⟨by simp [hmem], hmethods⟩
          · intro q hq hlive
            rcases List.mem_cons.1 hq with rfl | hq
            · exact ⟨_, List.mem_cons_self, rfl⟩
            · obtain ⟨p, hp, hpq⟩ := hpairs.2 q hq hlive
              exact ⟨p, List.mem_cons_of_mem _ hp, hpq⟩

end VaultKernel
