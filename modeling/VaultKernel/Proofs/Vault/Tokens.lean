import VaultKernel.Proofs.Vault.Chronicle
import VaultKernel.Proofs.Vault.Layering

/-!
# Tokens

A token belongs to one class, at all times of a chronicle: numbers are granted in increasing order
and never again, whether a load succeeds or fails and whoever disposes what. So a look-up by token
finds the class that has it, and when the last number is granted every further request is refused.
The main statement is `tokens_granted_once`.
-/

namespace VaultKernel.Vault

open Arena Classes

variable {v u w : Vault} {past : List Vault} {r q : ClassRef} {c d : Class}

/-- What is known of tokens and numbers in the newest vault of a chronicle. -/
structure Tokened (v : Vault) (past : List Vault) : Prop where
  set : ∀ r c, v.class? r = some c → c.token.isSet
  token_eq_iff : ∀ u ∈ v :: past, ∀ r c q d, v.class? r = some c → u.class? q = some d →
    (c.token = d.token ↔ r = q)
  found : ∀ t r, v.findToken? t = some r ↔ ∃ c, v.class? r = some c ∧ c.token = t
  /-- A new class has a handle and a token that no class had before. -/
  defined : ∀ m name flags r m' w, Run.defineClass m name flags v = .ok (r, m') w →
    ∃ c, w.class? r = some c ∧ c.token.moduleId = m.id ∧
      ∀ u ∈ v :: past, ∀ q d, u.class? q = some d → r ≠ q ∧ c.token ≠ d.token
  classGranted : ∀ id w, Run.grantClassId v = .ok id w → ∀ u ∈ v :: past,
    u.tokens.lastClass < id ∧ ∀ q d, u.class? q = some d → d.token.classId < id
  moduleGranted : ∀ id w, Run.grantModuleId v = .ok id w → ∀ u ∈ v :: past,
    u.tokens.lastModule < id ∧ ∀ q d, u.class? q = some d → d.token.moduleId < id
  classesExhausted : (∃ u ∈ v :: past, u.tokens.lastClass = 65535) →
    Run.grantClassId v = .error (.fatal .classIdsExhausted) v
  modulesExhausted : (∃ u ∈ v :: past, u.tokens.lastModule = 65535) →
    Run.grantModuleId v = .error (.fatal .moduleIdsExhausted) v

/-! ## Living classes -/

/-- The token of a class has its numbers. -/
theorem Coherent.token_isSet (hv : v.Coherent) (hc : v.class? r = some c) : c.token.isSet := by
  obtain ⟨_, he⟩ := get?_eq_some_iff.1 hc
  exact hv.stored.token_isSet he

/-- A class is found by its token. -/
theorem Coherent.findToken?_eq_some_iff (hv : v.Coherent) {t : Token} :
    v.findToken? t = some r ↔ ∃ c, v.class? r = some c ∧ c.token = t := by
  unfold findToken?
  constructor
  · intro h
    split at h
    · obtain ⟨⟨q, c⟩, hfound, rfl⟩ := Option.map_eq_some_iff.1 h
      have htoken := List.find?_some hfound
      exact ⟨c, mem_toList_iff.1 (List.mem_of_find?_eq_some hfound), by simpa using htoken⟩
    · cases h
  · rintro ⟨c, hc, rfl⟩
    rw [if_pos (hv.token_isSet hc)]
    obtain ⟨⟨q, d⟩, hfound⟩ : ∃ e, v.classes.toList.find? (fun e => e.2.token = c.token) = some e :=
      Option.isSome_iff_exists.1 (List.find?_isSome.2 ⟨(r, c), mem_toList_iff.2 hc, by simp⟩)
    have htoken : d.token = c.token := by simpa using List.find?_some hfound
    have hd := mem_toList_iff.1 (List.mem_of_find?_eq_some hfound)
    obtain ⟨owner, he⟩ := get?_eq_some_iff.1 hc
    obtain ⟨owner', he'⟩ := get?_eq_some_iff.1 hd
    have hqr := hv.numbered.distinct q owner' d r owner c he' he (by rw [htoken])
    show Option.map _ (v.classes.toList.find? fun e => e.2.token = c.token) = _
    rw [hfound, hqr]
    rfl

/-! ## Classes of earlier vaults -/

/-- Two classes have one token only if they are the same. -/
theorem Chronicle.token_eq_iff (h : Chronicle (v :: past)) (hu : u ∈ v :: past)
    (hc : v.class? r = some c) (hd : u.class? q = some d) : c.token = d.token ↔ r = q := by
  obtain ⟨hcoherent, hsucceeds⟩ := h.succeeds hu
  obtain ⟨owner, he⟩ := get?_eq_some_iff.1 hc
  obtain ⟨owner', he'⟩ := get?_eq_some_iff.1 hd
  constructor
  · intro htoken
    exact (hsucceeds.eq_of_token hcoherent.numbered he' he (by rw [htoken])).symm
  · rintro rfl
    exact (hsucceeds.kept r owner' d owner c he' he).2.1

/-! ## Granted numbers -/

/-- A class number that is granted is the next one. -/
theorem grantClassId_eq_ok {id : UInt16} (h : Run.grantClassId v = .ok id w) :
    ∃ tokens, v.tokens.nextClass? = some (id, tokens) ∧ w = { v with tokens } := by
  unfold Run.grantClassId at h
  split at h
  · next hnext =>
      cases h
      exact ⟨_, hnext, rfl⟩
  · cases h

/-- No number up to the last one is granted again. -/
theorem Chronicle.classId_lt (h : Chronicle (v :: past)) {id : UInt16} {tokens : TokenCounter}
    (hgrant : v.tokens.nextClass? = some (id, tokens)) (hu : u ∈ v :: past) :
    u.tokens.lastClass < id ∧ ∀ q d, u.class? q = some d → d.token.classId < id := by
  obtain ⟨hcoherent, hsucceeds⟩ := h.succeeds hu
  have hlast := hsucceeds.lastClass
  have hid := (nextClass?_eq_some hgrant).2
  rw [lastClass_of_nextClass? hgrant] at hid
  refine ⟨UInt16.lt_iff_toNat_lt.2 (by omega), fun q d hd => ?_⟩
  obtain ⟨owner, he⟩ := get?_eq_some_iff.1 hd
  have hle := hcoherent.numbered.granted q owner d he
  exact UInt16.lt_iff_toNat_lt.2 (by omega)

/-- A module number that is granted was never used. -/
theorem Chronicle.moduleId_lt (h : Chronicle (v :: past)) {id : ModuleId} {tokens : TokenCounter}
    (hgrant : v.tokens.nextModule? = some (id, tokens)) (hu : u ∈ v :: past) :
    u.tokens.lastModule < id ∧ ∀ q d, u.class? q = some d → d.token.moduleId < id := by
  obtain ⟨hcoherent, hsucceeds⟩ := h.succeeds hu
  have hlast := hsucceeds.lastModule
  have hid := (nextModule?_eq_some hgrant).1
  refine ⟨UInt16.lt_iff_toNat_lt.2 (by omega), fun q d hd => ?_⟩
  obtain ⟨owner, he⟩ := get?_eq_some_iff.1 hd
  obtain ⟨howner, htoken, _, hle⟩ := hcoherent.stored.entries q owner d he
  rw [htoken]
  exact UInt16.lt_iff_toNat_lt.2 (by omega)

/-- A new class is under a handle that was never issued, with a number that was never granted. -/
theorem Chronicle.defineClass (h : Chronicle (v :: past)) {m m' : Module} {name : TypeName}
    {flags : ClassFlags} (hdefine : Run.defineClass m name flags v = .ok (r, m') w) :
    ∃ c, w.class? r = some c ∧ c.token.moduleId = m.id ∧
      ∀ u ∈ v :: past, ∀ q d, u.class? q = some d → r ≠ q ∧ c.token ≠ d.token := by
  have hspec := defineClass_spec (m := m) (v := v) (E := fun _ => True) trivial name flags
  rw [hdefine] at hspec
  obtain ⟨c, classId, tokens, hgrant, hc, hr, rfl⟩ := hspec
  cases hr
  have harena := h.coherent.stored.arena
  have hall := allocate_spec harena h.coherent.stored.hasRoom m.id.toNat c
  refine ⟨c, get?_eq_some_iff.2 ⟨_, hall.entry?_self⟩, by rw [hc], fun u hu q d hd => ⟨?_, ?_⟩⟩
  · rintro rfl
    obtain ⟨owner, he⟩ := get?_eq_some_iff.1 hd
    exact hall.not_issued ((h.succeeds hu).2.issued _ (.of_entry he))
  · intro htoken
    have hlt := (h.classId_lt hgrant hu).2 q d hd
    rw [← htoken, hc] at hlt
    exact absurd hlt (UInt16.lt_irrefl classId)

/-- There is no number after the greatest. -/
theorem following?_greatest : TokenCounter.following? 65535 = none := if_pos rfl

/-- Nothing is beyond the greatest number. -/
theorem eq_greatest_of_le {a b : UInt16} (ha : a = 65535) (h : a.toNat ≤ b.toNat) : b = 65535 := by
  have hlt := b.toNat_lt
  rw [ha] at h
  exact UInt16.toNat_inj.1 (by simp at h ⊢; omega)

/-- Every run has a chronicle, which every further operation goes on with, and at all times of a
chronicle tokens and numbers are as `Tokened` says. -/
theorem tokens_granted_once :
    (∀ v, Reachable v → ∃ past, Chronicle (v :: past)) ∧
    (∀ v w past, Reachable v → Chronicle (v :: past) → v.Reaches w →
      ∃ earlier, Chronicle (w :: earlier) ∧ v :: past <:+ w :: earlier) ∧
    ∀ v past, Chronicle (v :: past) → Tokened v past := by
  refine ⟨fun v hv => hv.chronicle, fun v w past hv h hreaches => hv.chronicle_reaches h hreaches,
    fun v past h => ?_⟩
  refine ⟨fun r c hc => h.coherent.token_isSet hc,
    fun u hu r c q d hc hd => h.token_eq_iff hu hc hd,
    fun t r => h.coherent.findToken?_eq_some_iff,
    fun m name flags r m' w hdefine => h.defineClass hdefine, ?_, ?_, ?_, ?_⟩
  · intro id w hgrant u hu
    obtain ⟨tokens, hnext, _⟩ := grantClassId_eq_ok hgrant
    exact h.classId_lt hnext hu
  · intro id w hgrant u hu
    obtain ⟨tokens, hnext, _⟩ := grantModuleId_eq_ok hgrant
    exact h.moduleId_lt hnext hu
  · rintro ⟨u, hu, hlast⟩
    have hgreatest := eq_greatest_of_le hlast (h.succeeds hu).2.lastClass
    simp only [Run.grantClassId, TokenCounter.nextClass?, hgreatest, following?_greatest,
      Option.map_none]
  · rintro ⟨u, hu, hlast⟩
    have hgreatest := eq_greatest_of_le hlast (h.succeeds hu).2.lastModule
    simp only [Run.grantModuleId, TokenCounter.nextModule?, hgreatest, following?_greatest,
      Option.map_none]

/-- A module is disposed and loaded again: its class takes the slot that the first one had, but not
the token, which finds nothing any more. -/
theorem tokens_granted_once_reloaded : ∃ (v w : Vault) (earlier : List Vault) (c d : Class),
    Chronicle (w :: earlier) ∧ v ∈ w :: earlier ∧ v.class? ⟨23, 0⟩ = some c ∧
      w.class? ⟨23, 1⟩ = some d ∧ d.token ≠ c.token ∧ v.findToken? c.token = some ⟨23, 0⟩ ∧
      w.findToken? c.token = none := by
  have hrun : (create {} {}).toOption.any fun v₀ =>
      (hollowImage "library" []).encode.toOption.any fun bytes =>
        let load (v : Vault) := stateAfter (Searcher.load {} bytes v)
        let w := load ((Operation.disposeModule 2).after (load v₀))
        ((load v₀).class? ⟨23, 0⟩).isSome && (w.class? ⟨23, 1⟩).isSome &&
          (w.class? ⟨23, 0⟩).isNone := by
    decide +kernel
  obtain ⟨v₀, hcreated, hrun⟩ := (Option.any_eq_true _ _).1 hrun
  obtain ⟨bytes, _, hrun⟩ := (Option.any_eq_true _ _).1 hrun
  simp only [Bool.and_eq_true, Option.isSome_iff_exists, Option.isNone_iff_eq_none] at hrun
  obtain ⟨⟨⟨c, hc⟩, ⟨d, hd⟩⟩, hgone⟩ := hrun
  have hv : Reachable _ := ⟨_, _, v₀, toOption_eq_some.1 hcreated, reaches_load {} bytes v₀⟩
  have hreaches := ((Reaches.refl (stateAfter (Searcher.load {} bytes v₀))).operate
    (.disposeModule 2)).trans (reaches_load {} bytes _)
  obtain ⟨hcovered, hextended, htokened⟩ := tokens_granted_once
  obtain ⟨past, hpast⟩ := hcovered _ hv
  obtain ⟨earlier, hw, hsuffix⟩ := hextended _ _ past hv hpast hreaches
  have hmem := hsuffix.subset (List.mem_cons_self)
  have htoken := (htokened _ _ hw).token_eq_iff _ hmem
  refine ⟨_, _, earlier, c, d, hw, hmem, hc, hd, fun heq => ?_,
    ((htokened _ _ hpast).found _ _).2 ⟨c, hc, rfl⟩, ?_⟩
  · exact absurd ((htoken _ _ _ _ hd hc).1 heq) (by decide)
  · rw [Option.eq_none_iff_forall_ne_some]
    intro r hr
    obtain ⟨c', hc', heq⟩ := ((htokened _ _ hw).found _ _).1 hr
    rw [(htoken _ _ _ _ hc' hc).1 heq, hgone] at hc'
    cases hc'

end VaultKernel.Vault
