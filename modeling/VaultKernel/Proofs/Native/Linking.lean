import VaultKernel.Proofs.Class.ModuleRenaming
import VaultKernel.Proofs.Native.Registry

/-!
# Linking with a registry that was asked before

Linking asks the registry for symbols. If the loader is steady, the bindings do not depend on what
the registry was asked before, and afterwards it is still the same registry as one that was asked
otherwise: `linkMethods_alike` says so of the methods of a class, `linked_alike` of several classes.
-/

namespace VaultKernel

open Arena Classes

/-- Two states of one registry with a steady loader. -/
structure NativeRegistry.Interchangeable (r r' : NativeRegistry) : Prop extends Alike r r' where
  steady : r.loader.Steady

variable {ρ : Renaming} {excused : Failure → Prop} {r r' : NativeRegistry}

namespace NativeRegistry.Interchangeable

/-- Interchangeable registries resolve a symbol alike and stay interchangeable. -/
theorem resolve (h : Interchangeable r r') (path name : String) :
    (r'.resolve path name).1 = (r.resolve path name).1 ∧
      Interchangeable (r.resolve path name).2 (r'.resolve path name).2 := by
  obtain ⟨hanswer, halike⟩ := resolve_spec h.steady path name
  obtain ⟨hanswer', halike'⟩ := resolve_spec (h.loader ▸ h.steady) path name
  refine ⟨?_, (halike.symm.trans h.toAlike).trans halike', halike.loader ▸ h.steady⟩
  rw [hanswer, hanswer', h.answers]

end NativeRegistry.Interchangeable

/-- A renamed method is bound alike. -/
theorem Method.bind_alike (h : r.Interchangeable r') (m : Method) (place : MethodRef) :
    Agrees excused (fun b t b' t' => b' = b.rename ρ ∧ t.Interchangeable t') (m.bind place r)
      ((m.rename ρ).bind (place.rename ρ) r') := by
  unfold Method.bind
  rw [show (m.rename ρ).nativeTarget = m.nativeTarget from rfl]
  rcases m.nativeTarget with cause | ⟨library, symbol⟩
  · exact .failed _ _ _
  · dsimp only
    split
    · rw [show (m.rename ρ).builtinKey symbol = m.builtinKey symbol from rfl,
        show r'.builtin? (m.builtinKey symbol) = r.builtin? (m.builtinKey symbol) by
          rw [NativeRegistry.builtin?, h.builtins, NativeRegistry.builtin?]]
      cases r.builtin? (m.builtinKey symbol) with
      | some function => exact .done ⟨rfl, h⟩
      | none => exact .done ⟨rfl, h⟩
    · obtain ⟨hanswer, hafter⟩ := h.resolve library symbol
      generalize r.resolve library symbol = asked at hanswer hafter ⊢
      generalize r'.resolve library symbol = asked' at hanswer hafter ⊢
      obtain ⟨answer, t⟩ := asked
      obtain ⟨answer', t'⟩ := asked'
      dsimp only at hanswer hafter ⊢
      subst hanswer
      cases answer' with
      | ok address => exact .done ⟨rfl, hafter⟩
      | error e => exact .done ⟨rfl, hafter⟩

/-- A renamed method is linked alike. -/
theorem Method.link_alike (h : r.Interchangeable r') (m : Method) (place : MethodRef) :
    Agrees excused (fun linked t linked' t' => linked' = linked.rename ρ ∧ t.Interchangeable t')
      (m.link place r) ((m.rename ρ).link (place.rename ρ) r') := by
  unfold Method.link
  rw [show (m.rename ρ).isNative = m.isNative from rfl]
  split
  · refine (Method.bind_alike h m place).bind fun b t b' t' hb => ?_
    obtain ⟨rfl, ht⟩ := hb
    exact .done ⟨rfl, ht⟩
  · exact .done ⟨rfl, h⟩

/-- Renamed methods are linked alike. -/
theorem linkMethods_alike (h : r.Interchangeable r') (owner : ClassRef) (index : Nat)
    (ms : List Method) :
    Agrees excused
      (fun linked t linked' t' => linked' = linked.map (·.rename ρ) ∧ t.Interchangeable t')
      (linkMethods owner index ms r)
      (linkMethods (ρ.classes owner) index (ms.map (·.rename ρ)) r') := by
  induction ms generalizing index r r' with
  | nil => exact .done ⟨rfl, h⟩
  | cons m ms ih =>
      rw [List.map_cons, linkMethods, linkMethods]
      refine (Method.link_alike h m ⟨owner, index⟩).bind fun first t first' t' hfirst => ?_
      obtain ⟨rfl, ht⟩ := hfirst
      refine (ih ht (index + 1)).bind fun rest u rest' u' hrest => ?_
      obtain ⟨rfl, hu⟩ := hrest
      exact .done ⟨rfl, hu⟩

/-- The own classes of a module get the same methods, up to the renaming. -/
theorem linked_alike (h : r.Interchangeable r') {n : Nat} {m : Module} {classes classes' : Classes}
    (htwins : Twins ρ n m classes classes') {refs : List ClassRef} (hrefs : refs ⊆ m.ownClasses) :
    Agrees excused
      (fun pairs t pairs' t' => (pairs' = pairs.map (Prod.map ρ.classes (List.map (·.rename ρ))) ∧
        ∀ p ∈ pairs, p.1 ∈ m.ownClasses) ∧ t.Interchangeable t')
      (classes.linked refs r) (classes'.linked (refs.map ρ.classes) r') := by
  induction refs generalizing r r' with
  | nil => exact .done ⟨⟨rfl, by simp⟩, h⟩
  | cons ref refs ih =>
      obtain ⟨hown, hrest⟩ := List.cons_subset.1 hrefs
      obtain ⟨c, hc, hc', _⟩ := htwins.own ref hown
      rw [List.map_cons, Classes.linked, Classes.linked, hc, hc']
      refine (linkMethods_alike h ref 0 c.methods).bind fun methods t methods' t' hmethods => ?_
      obtain ⟨rfl, ht⟩ := hmethods
      refine (ih ht hrest).bind fun pairs u pairs' u' hpairs => ?_
      obtain ⟨⟨rfl, hall⟩, hu⟩ := hpairs
      refine .done ⟨⟨rfl, fun p hp => ?_⟩, hu⟩
      rcases List.mem_cons.1 hp with rfl | hp
      · exact hown
      · exact hall p hp

end VaultKernel
