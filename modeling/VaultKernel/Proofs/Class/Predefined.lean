import VaultKernel.Proofs.Class.Layouts
import VaultKernel.Proofs.Outcome

/-!
# The first classes

A new vault stores the predefined classes and lays them out. Each step keeps `Installed`; that every
predefined class is under its known handle is a matter of evaluation.
-/

namespace VaultKernel

open Arena Classes

theorem Classes.Stored.empty (tokens : TokenCounter) : Stored tokens {} := by
  refine ⟨.empty, Nat.zero_le _, ?_, ?_, ?_⟩
  · simp [generation?]
  · simp [entry?_eq, generation?]
  · simp [entry?_eq, generation?]

namespace CoreType

/-- What holds from the first predefined class on. -/
structure Installed (tokens : TokenCounter) (classes : Classes) : Prop
    extends Stored tokens classes where
  last : tokens.lastModule = owner
  numbered : Numbered tokens classes
  built : Built classes

theorem Installed.empty : Installed { lastModule := owner } {} := by
  have hnone : ∀ r, Arena.entry? ({} : Classes) r = none := by simp [entry?_eq, generation?]
  refine ⟨.empty _, rfl, ⟨?_, ?_⟩, ?_, ?_⟩ <;> simp [Proper, LaidOut, get?, hnone]

/-- A further predefined class keeps what is installed in order. -/
theorem define_spec {state state' : TokenCounter × Classes} {t : CoreType}
    (hi : Installed state.1 state.2) (h : define state t = .ok state') :
    Installed state'.1 state'.2 := by
  unfold define at h
  cases hnext : state.1.nextClass? with
  | none =>
      rw [hnext] at h
      cases h
  | some granted =>
      rw [hnext] at h
      cases h
      refine ⟨hi.define hnext rfl rfl rfl (by decide) ?_, ?_,
        hi.numbered.define hi.arena hi.hasRoom hnext rfl, ?_⟩
      · exact Nat.le_of_eq (by rw [hi.last])
      · rw [(nextClass?_eq_some hnext).1]
        exact hi.last
      · refine hi.built.step (.define hi.arena hi.hasRoom _ rfl) fun r owner c he _ => ?_
        exact (allocate_spec hi.arena hi.hasRoom _ _).extends.entry? he

/-- Laying out a class and its ancestors. -/
theorem Installed.initLayout {tokens : TokenCounter} {classes classes' : Classes}
    (hi : Installed tokens classes) {ref : ClassRef} (h : classes.initLayout ref = .ok classes') :
    Installed tokens classes' := by
  obtain ⟨chain, hchain, hdone⟩ := bind_eq_ok.1 h
  cases pure_eq_ok.1 hdone
  obtain ⟨path, hclimb, rfl⟩ := layoutChain_spec hchain
  have hrelaid := Relaid.foldl path.reverse classes
  refine ⟨hi.relaid hrelaid fun r hr => ?_, hi.last, hi.numbered.relaid hrelaid,
    hi.built.step (.layOut hclimb) fun _ _ _ => hclimb.entry?_laid⟩
  exact hclimb.rooted_of_mem hrelaid hi.rooted (fun _ => List.mem_reverse.2)
    (List.mem_reverse.1 hr)

/-- The handle of every predefined class leads to it, and it is laid out. -/
theorem install_entries {tokens : TokenCounter} {classes : Classes}
    (h : install { lastModule := owner } = .ok (tokens, classes)) (t : CoreType) :
    ∃ c, classes.entry? t.ref = some (owner.toNat, c) ∧ c.layout.isSome := by
  have hall : (match install { lastModule := owner } with
      | .ok (_, classes) => all.all fun t => (classes.entry? t.ref).any fun e =>
          e.1 = owner.toNat && e.2.layout.isSome
      | .error _ => false) = true := by decide +kernel
  rw [h] at hall
  have ht := List.all_eq_true.1 hall t (mem_all t)
  cases he : classes.entry? t.ref with
  | none =>
      rw [he] at ht
      cases ht
  | some e =>
      rw [he] at ht
      obtain ⟨howner, hlayout⟩ : e.1 = owner.toNat ∧ e.2.layout.isSome := by simpa using ht
      exact ⟨e.2, by rw [← howner], hlayout⟩

/-- All predefined classes are installed, and nothing else. -/
theorem install_spec {state : TokenCounter × Classes}
    (h : install { lastModule := owner } = .ok state) : Installed state.1 state.2 := by
  obtain ⟨defined, hdefined, hrest⟩ := bind_eq_ok.1 h
  obtain ⟨classes, hclasses, hdone⟩ := bind_eq_ok.1 hrest
  cases pure_eq_ok.1 hdone
  have hall := of_foldlM_eq_ok (P := fun state => Installed state.1 state.2)
    (fun _ _ _ => define_spec) .empty hdefined
  exact of_foldlM_eq_ok (fun _ _ _ hi h => hi.initLayout h) hall hclasses

end CoreType

end VaultKernel
