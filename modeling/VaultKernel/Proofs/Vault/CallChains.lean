import Mathlib.Data.List.Infix
import Mathlib.Logic.Relation
import VaultKernel.Proofs.Arena.Slots
import VaultKernel.Vault.Frames

/-!
# Chains of callers

A frame, its caller, the caller of this one and so on form a chain, which ends with a frame that
nothing called or in front of a frame that is gone. `CallChain` is such a chain that ends; nothing
in the type of vaults excludes that callers go round in a circle. A chain that ends meets no frame
twice, so the number of slots bounds it, and a trace goes all along it (`CallChain.stackTrace_eq`).
Each entry of a trace is one line if the title of its frame is (`splitOn_trace`).
-/

namespace VaultKernel.Vault

open Relation Arena

variable {v : Vault} {cursor gone : Option FrameRef} {ref a : FrameRef} {f : Frame}
  {chain : List (FrameRef × Frame)}

/-- The frames from a cursor on, innermost first, and the caller of the last one if it is gone. -/
inductive CallChain (v : Vault) :
    Option FrameRef → List (FrameRef × Frame) → Option FrameRef → Prop where
  | ended : CallChain v none [] none
  | gone {ref : FrameRef} : v.frame? ref = none → CallChain v (some ref) [] (some ref)
  | frame {ref : FrameRef} {f : Frame} {rest : List (FrameRef × Frame)} {gone : Option FrameRef} :
      v.frame? ref = some f → CallChain v f.parent rest gone →
      CallChain v (some ref) ((ref, f) :: rest) gone

/-- A frame was called from another one, which need not be there any more. -/
def CalledFrom (v : Vault) (a b : FrameRef) : Prop := ∃ f, v.frame? a = some f ∧ f.parent = some b

/-- The second frame is the first one or one of its ancestors. -/
def Outward (v : Vault) : FrameRef → FrameRef → Prop := ReflTransGen v.CalledFrom

/-- A frame that is there is current. -/
theorem contains_of_frame? (hf : v.frame? ref = some f) : v.frames.contains ref := by
  obtain ⟨owner, he⟩ := get?_eq_some_iff.1 hf
  exact contains_iff.2 ⟨_, he⟩

/-- The current frames are those that are there. -/
theorem contains_iff_frame? : v.frames.contains ref ↔ ∃ f, v.frame? ref = some f := by
  refine ⟨fun h => ?_, fun ⟨f, hf⟩ => contains_of_frame? hf⟩
  obtain ⟨e, he⟩ := contains_iff.1 h
  exact ⟨e.2, get?_eq_some_iff.2 ⟨e.1, he⟩⟩

/-- A frame is answered exactly when it is there. -/
theorem frameOf_eq_ok : v.frameOf ref = .ok f ↔ v.frame? ref = some f := by
  unfold frameOf
  cases v.frame? ref <;> simp

/-- A callee is a level deeper than its caller, and levels stay in 32 bits. -/
theorem calleeLevel_eq_ok {level : UInt32} (h : v.calleeLevel ref = .ok level) :
    ∃ f, v.frame? ref = some f ∧ level.toNat = f.level.toNat + 1 := by
  unfold calleeLevel at h
  cases hf : v.frameOf ref with
  | error e =>
      rw [hf] at h
      cases h
  | ok f =>
      rw [hf] at h
      change (if f.level.toNat + 1 < 4294967296 then .ok (f.level + 1)
        else .error Failure.overflow) = Except.ok level at h
      refine ⟨f, frameOf_eq_ok.1 hf, ?_⟩
      split at h
      · next hlt =>
          cases h
          have hone : (1 : UInt32).toNat = 1 := rfl
          rw [UInt32.toNat_add]
          omega
      · cases h

namespace CallChain

/-! ## What is in a chain -/

/-- The frames of a chain are there. -/
theorem frame?_of_mem (h : v.CallChain cursor chain gone) :
    ∀ c ∈ chain, v.frame? c.1 = some c.2 := by
  induction h with
  | ended | gone => simp
  | frame hf _ ih => exact List.forall_mem_cons.2 ⟨hf, ih⟩

/-- Where a chain breaks off there is no frame. -/
theorem frame?_gone (h : v.CallChain cursor chain (some a)) : v.frame? a = none := by
  generalize hgone : some a = gone at h
  induction h with
  | ended => cases hgone
  | gone hnone =>
      cases hgone
      exact hnone
  | frame _ _ ih => exact ih hgone

/-- The cursor decides how its chain goes on. -/
theorem unique {chain' : List (FrameRef × Frame)} {gone' : Option FrameRef}
    (h : v.CallChain cursor chain gone) (h' : v.CallChain cursor chain' gone') :
    chain = chain' ∧ gone = gone' := by
  induction h generalizing chain' gone' with
  | ended =>
      cases h'
      exact ⟨rfl, rfl⟩
  | gone hgone =>
      cases h' with
      | gone => exact ⟨rfl, rfl⟩
      | frame hf => cases hgone.symm.trans hf
  | frame hf _ ih =>
      cases h' with
      | gone hgone => cases hgone.symm.trans hf
      | frame hf' hrest =>
          cases hf.symm.trans hf'
          obtain ⟨rfl, rfl⟩ := ih hrest
          exact ⟨rfl, rfl⟩

/-- No chain of two frames that call each other ends. -/
theorem not_of_circle {p : FrameRef} {g : Frame} (hf : v.frame? ref = some f)
    (hparent : f.parent = some p) (hg : v.frame? p = some g) (hparent' : g.parent = some ref) :
    ¬ v.CallChain (some ref) chain gone := by
  intro h
  cases h with
  | gone hgone => cases hgone.symm.trans hf
  | frame hf' hrest =>
      cases hf.symm.trans hf'
      rw [hparent] at hrest
      cases hrest with
      | gone hgone => cases hgone.symm.trans hg
      | frame hg' hrest' =>
          cases hg.symm.trans hg'
          -- after two frames the same chain begins again, but it is shorter
          have hsame := (CallChain.frame hf' (hparent ▸ CallChain.frame hg' hrest')).unique
            (hparent' ▸ hrest')
          have hlength := congrArg List.length hsame.1
          simp only [List.length_cons] at hlength
          omega

/-- From each frame on, the rest of a chain is a chain. -/
theorem exists_suffix (h : v.CallChain cursor chain gone) (ha : a ∈ chain.map (·.1)) :
    ∃ rest, v.CallChain (some a) rest gone ∧ rest <:+ chain := by
  induction h with
  | ended | gone => simp at ha
  | frame hf hrest ih =>
      rcases List.mem_cons.1 ha with rfl | ha
      · exact ⟨_, .frame hf hrest, List.suffix_refl _⟩
      · obtain ⟨rest, hchain, hsuffix⟩ := ih ha
        exact ⟨rest, hchain, hsuffix.trans (List.suffix_cons _ _)⟩

/-- No frame is met twice, because a shorter chain would go on from it the second time. -/
theorem nodup (h : v.CallChain cursor chain gone) : (chain.map (·.1)).Nodup := by
  induction h with
  | ended | gone => exact List.nodup_nil
  | frame hf hrest ih =>
      refine List.nodup_cons.2 ⟨fun ha => ?_, ih⟩
      obtain ⟨shorter, hchain, hsuffix⟩ := hrest.exists_suffix ha
      have hle := hsuffix.length_le
      rw [(hchain.unique (.frame hf hrest)).1, List.length_cons] at hle
      omega

/-- A chain is no longer than there are slots, as no frame is on it twice. -/
theorem length_le (h : v.CallChain cursor chain gone) : chain.length ≤ v.frames.slots.size := by
  rw [← List.length_map (f := (·.1))]
  refine length_le_of_contains h.nodup fun a ha => ?_
  obtain ⟨c, hc, rfl⟩ := List.mem_map.1 ha
  exact contains_of_frame? (h.frame?_of_mem c hc)

/-- The ancestors of a frame are the frames of its chain and the one that is gone. -/
theorem outward_iff (h : v.CallChain (some ref) chain gone) :
    v.Outward ref a ↔ a ∈ chain.map (·.1) ∨ gone = some a := by
  generalize hcursor : some ref = cursor at h
  induction h generalizing ref with
  | ended => cases hcursor
  | gone hgone =>
      cases hcursor
      rw [Outward, ReflTransGen.cases_head_iff]
      simp [CalledFrom, hgone]
  | @frame ref f rest gone hf hrest ih =>
      cases hcursor
      have hstep : ∀ b, v.CalledFrom ref b ↔ f.parent = some b := by simp [CalledFrom, hf]
      rw [Outward, ReflTransGen.cases_head_iff, List.map_cons, List.mem_cons, or_assoc, eq_comm]
      refine or_congr_right ?_
      simp only [hstep]
      cases hparent : f.parent with
      | none =>
          rw [hparent] at hrest
          cases hrest
          simp
      | some p =>
          rw [← ih hparent.symm]
          simp [Outward]

/-- A chain is whole if and only if all the ancestors of its frame are there. -/
theorem gone_eq_none_iff (h : v.CallChain (some ref) chain gone) :
    gone = none ↔ ∀ a, v.Outward ref a → v.frames.contains a := by
  constructor
  · rintro rfl a ha
    obtain ⟨c, hc, rfl⟩ := List.mem_map.1 ((h.outward_iff.1 ha).resolve_right nofun)
    exact contains_of_frame? (h.frame?_of_mem c hc)
  · intro hlive
    cases gone with
    | none => rfl
    | some p =>
        obtain ⟨f, hf⟩ := contains_iff_frame?.1 (hlive p (h.outward_iff.2 (Or.inr rfl)))
        cases h.frame?_gone.symm.trans hf

/-! ## Traces -/

/-- The walk of a trace goes along the chain. -/
theorem traceFrom_eq (h : v.CallChain cursor chain gone) {fuel : Nat}
    (hfuel : chain.length < fuel) :
    v.traceFrom fuel cursor = match gone with
      | none => .ok (chain.map fun c => v.traceLine c.2)
      | some p => .error (.fatal (.frameGone p)) := by
  induction h generalizing fuel with
  | ended =>
      cases fuel with
      | zero => cases hfuel
      | succ fuel => rfl
  | gone hgone =>
      cases fuel with
      | zero => cases hfuel
      | succ fuel =>
          rw [traceFrom, frameOf, hgone]
          rfl
  | @frame ref f rest gone hf _ ih =>
      cases fuel with
      | zero => cases hfuel
      | succ fuel =>
          rw [traceFrom, frameOf, hf]
          show (do return v.traceLine f :: (← v.traceFrom fuel f.parent)) = _
          rw [ih (Nat.lt_of_succ_lt_succ hfuel)]
          cases gone <;> rfl

/-- The trace has a line for each frame of the chain, if all of them are there. -/
theorem stackTrace_eq (h : v.CallChain (some ref) chain gone) :
    v.stackTrace ref = match gone with
      | none => .ok (String.join (chain.map fun c => v.traceLine c.2))
      | some p => .error (.fatal (.frameGone p)) := by
  rw [stackTrace, h.traceFrom_eq (Nat.lt_succ_of_le h.length_le)]
  cases gone <;> rfl

end CallChain

/-- The lines of a trace are the titles of its frames, one line each, as long as no title has a line
feed of its own. Nothing follows the last line. -/
theorem splitOn_trace {v : Vault} {chain : List (FrameRef × Frame)}
    (hplain : ∀ c ∈ chain, '\n' ∉ (v.frameTitle c.2).toList) :
    (String.join (chain.map fun c => v.traceLine c.2)).toList.splitOn '\n' =
      chain.map (fun c => ("\tat " ++ v.frameTitle c.2).toList) ++ [[]] := by
  have hlines : ∀ chain : List (FrameRef × Frame),
      (String.join (chain.map fun c => v.traceLine c.2)).toList = ['\n'].intercalate
        (chain.map (fun c => ("\tat " ++ v.frameTitle c.2).toList) ++ [[]]) := by
    intro chain
    induction chain with
    | nil => rfl
    | cons c chain ih =>
        rw [String.toList_join] at ih ⊢
        rw [List.map_cons, List.flatMap_cons, ih, traceLine, String.toList_append]
        cases chain with
        | nil => simp [List.intercalate]
        | cons c' chain => exact List.intercalate_cons_cons.symm
  rw [hlines, List.splitOn_intercalate _ ?_ (by simp)]
  intro line hline
  rcases List.mem_append.1 hline with hline | hline
  · obtain ⟨c, hc, rfl⟩ := List.mem_map.1 hline
    simpa using hplain c hc
  · rw [List.mem_singleton.1 hline]
    exact List.not_mem_nil

end VaultKernel.Vault
