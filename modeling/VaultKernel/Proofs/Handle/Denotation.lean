import VaultKernel.Object
import VaultKernel.Proofs.Arena.Overrun
import VaultKernel.Proofs.Heap.Handles

/-!
# What handles denote

Read `handles_denote` first. It is about every way of using a heap and an arena in which no slot is
vacated 2 ^ 32 times: no handle is returned twice, a handle stands for what was stored under it
until it is removed, and afterwards nothing can be done through it, whatever takes its slot. A heap
refuses to have more slots than there are words of 32 bits. An arena does not, and as soon as it has
one more, it has handed out a living handle again; `handles_repeat` shows the first such run.
-/

namespace VaultKernel

variable {α : Type}

/-- Nothing can be done to the heap through the handle. -/
structure Heap.Refuses (h : Heap α) (r : ObjectRef) : Prop where
  get : h.get? r = none
  header : h.header? r = none
  contains : h.contains r = false
  modify : ∀ f, h.modify r f = h
  free : h.free r = .error (.staleHandle r) h

/-- Nothing can be done to the arena through the handle. -/
structure Arena.Refuses (a : Arena α) (h : Handle) : Prop where
  get : a.get? h = none
  owner : a.ownerOf? h = none
  contains : a.contains h = false
  modify : ∀ f, a.modify h f = a
  remove : a.remove h = (none, a)

/-- A reference that denotes nothing is refused by every access. -/
theorem Heap.Refuses.of_get? {h : Heap α} {r : ObjectRef} (hget : h.get? r = none) :
    h.Refuses r := by
  have hentry : h.entry? r = none := by simpa [Heap.get?] using hget
  have hcontains : h.contains r = false := by rw [Heap.contains, hentry]; rfl
  exact {
    get := hget
    header := by rw [Heap.header?, hentry]; rfl
    contains := hcontains
    modify := fun f => if_neg (by simp [hcontains])
    free := by rw [Heap.free, hget] }

/-- A handle that denotes nothing is refused by every access. -/
theorem Arena.Refuses.of_vacant {a : Arena α} {h : Handle} (hentry : a.entry? h = none) :
    a.Refuses h := by
  have hcontains : a.contains h = false := by rw [Arena.contains, hentry]; rfl
  exact {
    get := by rw [Arena.get?, hentry]; rfl
    owner := by rw [Arena.ownerOf?, hentry]; rfl
    contains := hcontains
    modify := fun f => Arena.modify_of_not_contains (by simp [hcontains]) f
    remove := Arena.remove_of_not_contains (by simp [hcontains]) }

/-- Handles are never returned twice, stand for what was stored under them until it is removed, and
lead to nothing from then on; those of an arena if and only if it has no more slots than there are
words of 32 bits. -/
theorem handles_denote {β : Type} [Traceable α] (limits : HeapLimits) (h : Heap α)
    (heapLog : HandleLog α) (a : Arena β) (arenaLog : HandleLog (Nat × β)) :
    (h.Logged limits heapLog → heapLog.Bounded →
      heapLog.storedHandles.Nodup ∧ (∀ r, h.get? r = heapLog.meaning? r) ∧
        ∀ r, .removed r ∈ heapLog → h.Refuses r) ∧
    (a.Logged arenaLog → arenaLog.Bounded →
      ((arenaLog.storedHandles.Nodup ∧ (∀ r, a.entry? r = arenaLog.meaning? r) ∧
        ∀ r, .removed r ∈ arenaLog → a.Refuses r) ↔ a.slots.size ≤ 4294967296)) := by
  constructor
  · intro hlog hbound
    have htracked := hlog.tracked hbound
    exact ⟨htracked.distinct, htracked.meaning, fun r hr => .of_get? (htracked.gone hr)⟩
  · intro hlog hbound
    constructor
    · rintro ⟨hdistinct, _⟩
      exact Nat.not_lt.1 fun hmany => hlog.repeats hbound hmany hdistinct
    · intro hsize
      have htracked := hlog.tracked hbound hsize
      exact ⟨htracked.distinct, htracked.meaning, fun r hr => .of_vacant (htracked.gone hr)⟩

/-- A slot is used twice in a heap and in an arena; the first handle stays dead. -/
theorem handles_denote_reuse :
    (∃ (h : Heap Object) (log : HandleLog Object),
      h.Logged {} log ∧ h.Refuses ⟨0, 0⟩ ∧ h.get? ⟨0, 1⟩ = some ⟨⟨5, 0⟩, #[.i32 7]⟩) ∧
    (∃ (a : Arena Nat) (log : HandleLog (Nat × Nat)),
      a.Logged log ∧ a.Refuses ⟨0, 0⟩ ∧ a.entry? ⟨0, 1⟩ = some (3, 11)) := by
  constructor
  · have hstart : (Heap.empty {} : Heap Object).Logged {} [] := .start
    have hfirst := hstart.stored ⟨⟨4, 0⟩, #[]⟩ 8 false rfl
    have hcollected := hfirst.collect []
    have hsecond := hcollected.stored ⟨⟨5, 0⟩, #[]⟩ 8 false rfl
    have hchanged := hsecond.changed ⟨0, 1⟩ fun x => { x with slots := #[.i32 7] }
    obtain ⟨_, hmeaning, hgone⟩ := (handles_denote _ _ _ ({} : Arena Nat) []).1 hchanged (by
      intro i
      show 0 + (if 0 = i then 1 else 0) < 4294967296
      split <;> decide)
    refine ⟨_, _, hchanged, hgone ⟨0, 0⟩ ?_, (hmeaning ⟨0, 1⟩).trans rfl⟩
    exact List.mem_cons_of_mem _ (List.mem_cons_of_mem _ List.mem_cons_self)
  · have hstart : ({} : Arena Nat).Logged [] := .start
    have hfirst := hstart.stored 2 10
    have hremoved := hfirst.removeOwner 2
    have hsecond := hremoved.stored 3 10
    have hchanged := hsecond.changed ⟨0, 1⟩ (· + 1)
    have hexact := (handles_denote {} (Heap.empty {} : Heap Object) [] _ _).2 hchanged (by
      intro i
      show 0 + (if 0 = i then 1 else 0) < 4294967296
      split <;> decide)
    obtain ⟨_, hmeaning, hgone⟩ := hexact.2 (by decide)
    refine ⟨_, _, hchanged, hgone ⟨0, 0⟩ ?_, (hmeaning ⟨0, 1⟩).trans rfl⟩
    exact List.mem_cons_of_mem _ (List.mem_cons_of_mem _ List.mem_cons_self)

/-- After 2 ^ 32 + 1 entries of an arena, of which none was removed, the first handle was returned
twice and leads to the last entry; nothing leads to the first one any more. -/
theorem handles_repeat :
    (Arena.filled 4294967297).Logged (Arena.fillingLog 4294967297) ∧
      (∀ i, (Arena.fillingLog 4294967297).vacancies i = 0) ∧
      ¬ (Arena.fillingLog 4294967297).storedHandles.Nodup ∧
      .stored ⟨0, 0⟩ (1, 0) ∈ Arena.fillingLog 4294967297 ∧
      Arena.entry? (Arena.filled 4294967297) ⟨0, 0⟩ = some (1, 4294967296) := by
  refine ⟨Arena.logged_filled _, Arena.vacancies_fillingLog _, fun hnodup => ?_,
    Arena.mem_fillingLog (i := 0) (by decide), Arena.entry?_filled_succ 4294967296⟩
  rw [Arena.storedHandles_fillingLog, List.nodup_reverse] at hnodup
  have heq : 0 = 4294967296 := List.inj_on_of_nodup_map hnodup (List.mem_range.2 (by decide))
    (List.mem_range.2 (by decide)) rfl
  exact absurd heq (by decide)

end VaultKernel
