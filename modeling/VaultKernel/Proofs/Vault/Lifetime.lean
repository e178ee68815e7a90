import VaultKernel.Proofs.Vault.Nesting

/-!
# Lifetimes

The lifetime of a vault is what happens to it from its creation on: public calls, of which any may
fail, and whose loads use searchers. `Call.rearranges` says what a single call does to the loaded
modules: loads put modules behind the others, disposals take modules away, and other calls do
neither.
-/

namespace VaultKernel

open Vault

/-- A public call. -/
inductive Call where
  | operate (operation : Operation)
  | load (s : Searcher) (bytes : Wire.Bytes)
  | resolve (s : Searcher) (name : String) (version : Version)

/-- The vault after a call. -/
def Call.after : Call → Vault → Vault
  | .operate operation, v => operation.after v
  | .load s bytes, v => stateAfter (s.load bytes v)
  | .resolve s name version, v => stateAfter (s.resolve name version v)

/-- A call that removes a loaded module. -/
inductive Call.Disposes (v : Vault) (id : ModuleId) : Call → Prop where
  | module : id ∈ idsOf v.modules.toList → Disposes v id (.operate (.disposeModule id))
  | vault : id ∈ idsOf v.modules.toList → v.disposed = none → Disposes v id (.operate .dispose)

/-- The calls since the creation of a vault, the newest one first, each with the vault in which it
was made. -/
inductive Lifetime : List (Vault × Call) → Vault → Prop where
  | created {config : VaultConfig} {registry : NativeRegistry} {v : Vault} :
      create config registry = .ok v → Lifetime [] v
  | called {past : List (Vault × Call)} {v : Vault} (call : Call) :
      Lifetime past v → Lifetime ((v, call) :: past) (call.after v)

/-- A public call is something that a vault goes through. -/
theorem Call.reaches (call : Call) (v : Vault) : v.Reaches (call.after v) := by
  cases call with
  | operate operation => exact .operate operation (.refl v)
  | load s bytes => exact reaches_load s bytes v
  | resolve s name version => exact reaches_resolve s name version v

/-- The vaults of a lifetime are reachable. -/
theorem Lifetime.reachable {past : List (Vault × Call)} {v : Vault} (h : Lifetime past v) :
    v.Reachable := by
  induction h with
  | @created config registry v hcreated => exact ⟨config, registry, v, hcreated, .refl v⟩
  | called call _ ih =>
      obtain ⟨config, registry, v₀, hcreated, hreaches⟩ := ih
      exact ⟨config, registry, v₀, hcreated, hreaches.trans (call.reaches _)⟩

/-! ## Modules -/

/-- What a call can do to the loaded modules. -/
inductive Call.Rearranges (call : Call) (v v' : Vault) : Prop where
  | adds (new : List Module) : v'.modules.toList = v.modules.toList ++ new →
      Grounded v.modules.toList new →
      ((idsOf v.modules.toList).Nodup → (idsOf v'.modules.toList).Nodup) → Rearranges call v v'
  | removes : v'.modules.toList.Sublist v.modules.toList →
      (∀ m ∈ v.modules.toList, m ∈ v'.modules.toList ∨ call.Disposes v m.id) →
      Rearranges call v v'

namespace Call.Rearranges

variable {call : Call} {v v' : Vault}

/-- A call that leaves the modules alone rearranges nothing. -/
theorem of_eq (h : v'.modules = v.modules) : call.Rearranges v v' := by
  refine .removes ?_ fun m hm => Or.inl ?_
  · rw [h]
  · rw [h]
    exact hm

/-- Whatever comes of a load, it only adds modules. -/
theorem of_load {s : Searcher} {depth : Nat} {bytes : Wire.Bytes} (hs : v.Sound) (ho : v.Orderly) :
    call.Rearranges v (stateAfter (LoadCall.run s ⟨depth, bytes, v⟩)) := by
  obtain ⟨new, hspreads, _⟩ := (LoadCall.grows s ⟨depth, bytes, v⟩ hs ho).spreads
  exact .adds new hspreads.modules hspreads.grounded hspreads.distinct

/-- A disposed module is taken out from among the others. -/
theorem disposeModule (v : Vault) (id : ModuleId) :
    (Call.operate (.disposeModule id)).Rearranges v (stateAfter (Run.disposeModule id v)) := by
  refine ends_iff.1 (Ends.get ?_)
  cases hm : v.module? id with
  | none => exact of_eq rfl
  | some m =>
      have hid : id ∈ idsOf v.modules.toList := by
        have hmem := Array.mem_toList_iff.2 (Array.mem_of_find?_eq_some hm)
        exact List.mem_map.2 ⟨m, hmem, by simpa using Array.find?_some hm⟩
      have hmodules : (v.modules.filter (·.id ≠ id)).toList =
          v.modules.toList.filter (·.id ≠ id) := Array.toList_filter
      refine Rearranges.removes ?_ fun m' hm' => ?_
      · show (v.modules.filter (·.id ≠ id)).toList.Sublist _
        rw [hmodules]
        exact List.filter_sublist
      · by_cases hsame : m'.id = id
        · rw [hsame]
          exact Or.inr (.module hid)
        · refine Or.inl ?_
          show m' ∈ (v.modules.filter (·.id ≠ id)).toList
          rw [hmodules]
          exact List.mem_filter.2 ⟨hm', by simpa using hsame⟩

/-- Disposing of the vault takes all modules away. -/
theorem dispose (hs : v.Sound) :
    (Call.operate .dispose).Rearranges v (stateAfter (Run.dispose v)) := by
  refine ends_iff.1 (dispose_ends (fun _ => of_eq rfl) fun hdisposed => ?_)
  refine Rearranges.removes ?_ fun m hm => Or.inr (.vault (List.mem_map_of_mem hm) hdisposed)
  rw [modules_cleared hs]
  exact List.nil_sublist _

/-- Operations take modules away or leave them. -/
theorem operate (hs : v.Sound) (operation : Operation) :
    (Call.operate operation).Rearranges v (operation.after v) := by
  rcases after_cases operation v with htends | ⟨registry, hafter⟩ | ⟨id, rfl⟩ | rfl
  · exact .of_eq htends.alike.modules
  · refine .of_eq ?_
    rw [hafter]
  · exact .disposeModule v id
  · exact .dispose hs

end Call.Rearranges

/-- A call adds modules behind the others, takes some away or leaves them. -/
theorem Call.rearranges (call : Call) {v : Vault} (hs : v.Sound) (ho : v.Orderly) :
    call.Rearranges v (call.after v) := by
  cases call with
  | operate operation => exact .operate hs operation
  | load s bytes => exact .of_load hs ho
  | resolve s name version =>
      show Rearranges _ v (stateAfter (s.resolveWithin s.depth name version v))
      generalize hresult : s.resolveWithin s.depth name version v = result
      have hsupplies := hresult ▸ Searcher.resolveWithin_supplies s s.depth name version v
      have hload : ∀ {depth bytes v'}, stateAfter (LoadCall.run s ⟨depth, bytes, v⟩) = v' →
          Rearranges (.resolve s name version) v v' := by
        rintro depth bytes _ rfl
        exact .of_load hs ho
      generalize s.depth = depth at hsupplies
      cases hsupplies with
      | exhausted => exact .of_eq rfl
      | reused => exact .of_eq rfl
      | cyclic => exact .of_eq rfl
      | missing => exact .of_eq rfl
      | loaded _ hrun => exact hload (congrArg stateAfter hrun)
      | mismatched _ hrun =>
          have hafter := congrArg stateAfter hrun
          exact hload hafter
      | failed _ hrun => exact hload (congrArg stateAfter hrun)

end VaultKernel
