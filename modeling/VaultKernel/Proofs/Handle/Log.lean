import Mathlib.Data.List.Nodup
import VaultKernel.Handle

/-!
# Logs of handles

A log records, newest first, under which handles a store took values, how they were changed and when
they were removed. `meaning?` reads off a log what a handle stands for. `Tracks` ties a log to what
a store shows of its slots: the generation of a slot is the number of times that it was vacated, so
a new handle is never an old one. There is one lemma for each kind of event; it asks only for what
the event does to the generations and the values, so any store with generations can use it. A store
that counts its entries counts its occupied slots (`length_eq_countP`).
-/

namespace VaultKernel

/-! ## Counting slots -/

/-- The number of elements with a property is the number of their places. -/
theorem countP_eq_length_filter_range {σ : Type} (p : σ → Bool) (slots : List σ) :
    slots.countP p = ((List.range slots.length).filter fun i => slots[i]?.any p).length := by
  induction slots with
  | nil => rfl
  | cons s rest ih =>
      rw [List.countP_cons, ih, List.length_cons, List.range_succ_eq_map, List.filter_cons,
        List.filter_map, List.getElem?_cons_zero, Option.any_some]
      have hshift : ((fun i => (s :: rest)[i]?.any p) ∘ Nat.succ) = fun i => rest[i]?.any p := rfl
      rw [hshift]
      split <;> simp

/-- Places without repetition at which all elements with a property stand. -/
theorem length_eq_countP {σ : Type} {p : σ → Bool} {slots : Array σ} {places : List Nat}
    (hnodup : places.Nodup) (hplaces : ∀ i, i ∈ places ↔ slots[i]?.any p) :
    places.length = slots.countP p := by
  rw [← Array.countP_toList, countP_eq_length_filter_range]
  apply List.Perm.length_eq
  rw [List.perm_ext_iff_of_nodup hnodup (List.nodup_range.filter _)]
  intro i
  rw [hplaces, List.mem_filter, List.mem_range, Array.length_toList, Array.getElem?_toList]
  refine ⟨fun h => ⟨?_, h⟩, fun h => h.2⟩
  obtain ⟨s, hs, _⟩ := (Option.any_eq_true _ _).1 h
  exact (Array.getElem?_eq_some_iff.1 hs).1

/-! ## Logs -/

/-- What happened to a handle. -/
inductive HandleEvent (α : Type) where
  /-- A value was stored and the handle returned. -/
  | stored (h : Handle) (value : α)
  /-- The value was changed through the handle. -/
  | changed (h : Handle) (f : α → α)
  /-- What the handle stood for was removed. -/
  | removed (h : Handle)

/-- Events, the newest one in front. -/
abbrev HandleLog (α : Type) := List (HandleEvent α)

namespace HandleLog

variable {α : Type}

/-- What a handle stands for: the value that was stored under it, with all changes, unless it was
removed. -/
def meaning? : HandleLog α → Handle → Option α
  | [], _ => none
  | .stored r value :: log, h => if h = r then some value else meaning? log h
  | .changed r f :: log, h => if h = r then (meaning? log h).map f else meaning? log h
  | .removed r :: log, h => if h = r then none else meaning? log h

/-- The handles under which values were stored. -/
def storedHandles : HandleLog α → List Handle
  | [] => []
  | .stored r _ :: log => r :: storedHandles log
  | _ :: log => storedHandles log

/-- How often a slot was vacated. -/
def vacancies : HandleLog α → Nat → Nat
  | [], _ => 0
  | .removed r :: log, i => vacancies log i + if r.index = i then 1 else 0
  | _ :: log, i => vacancies log i

/-- The removals of several handles in order, after earlier events. -/
def removeAll (rs : List Handle) (log : HandleLog α) : HandleLog α :=
  rs.reverse.map .removed ++ log

/-- No slot was vacated so often that its generation began anew. -/
def Bounded (log : HandleLog α) : Prop := ∀ i, log.vacancies i < 4294967296

/-- The first removal of a row is logged under the others. -/
theorem removeAll_cons (r : Handle) (rs : List Handle) (log : HandleLog α) :
    removeAll (r :: rs) log = removeAll rs (.removed r :: log) := by
  simp [removeAll]

/-- Removals return no handle. -/
theorem storedHandles_removeAll (rs : List Handle) (log : HandleLog α) :
    storedHandles (removeAll rs log) = storedHandles log := by
  induction rs generalizing log with
  | nil => rfl
  | cons r rs ih =>
      rw [removeAll_cons, ih]
      rfl

/-- A handle that stands for something was returned. -/
theorem mem_storedHandles {log : HandleLog α} {h : Handle} (hh : (log.meaning? h).isSome) :
    h ∈ log.storedHandles := by
  induction log with
  | nil => cases hh
  | cons event log ih =>
      cases event with
      | stored r value =>
          rw [storedHandles, List.mem_cons]
          by_cases hr : h = r
          · exact Or.inl hr
          · rw [meaning?, if_neg hr] at hh
            exact Or.inr (ih hh)
      | changed r f =>
          rw [meaning?] at hh
          split at hh
          · exact ih (Option.isSome_map.symm.trans hh)
          · exact ih hh
      | removed r =>
          rw [meaning?] at hh
          split at hh
          · cases hh
          · exact ih hh

/-- Vacancies are only ever added to a log. -/
theorem vacancies_le_cons (e : HandleEvent α) (log : HandleLog α) (i : Nat) :
    log.vacancies i ≤ vacancies (e :: log) i := by
  cases e with
  | stored | changed => exact Nat.le_refl _
  | removed r => exact Nat.le_add_right _ _

/-- What holds of a log held of it before its last event. -/
theorem Bounded.tail {event : HandleEvent α} {log : HandleLog α}
    (hb : Bounded (event :: log)) : log.Bounded :=
  fun i => Nat.lt_of_le_of_lt (vacancies_le_cons event log i) (hb i)

/-- A bound on a log holds of every earlier log. -/
theorem Bounded.of_append {later : List (HandleEvent α)} {log : HandleLog α}
    (hb : Bounded (later ++ log)) : log.Bounded := by
  induction later with
  | nil => exact hb
  | cons event later ih => exact ih hb.tail

/-! ## Logs and slots -/

/-- The log of a store that shows these generations and values. -/
structure Tracks (log : HandleLog α) (generation? : Nat → Option UInt32)
    (value? : Handle → Option α) : Prop where
  /-- A slot without a generation was never used. -/
  generations : ∀ i, ((generation? i).getD 0).toNat = log.vacancies i
  /-- Only a handle of the present generation leads to a value. -/
  current : ∀ h, (value? h).isSome → generation? h.index = some h.generation
  meaning : ∀ h, value? h = log.meaning? h
  distinct : log.storedHandles.Nodup
  /-- A handle whose slot was not vacated since it was returned still leads to a value. -/
  issued : ∀ h ∈ log.storedHandles, h.generation.toNat < log.vacancies h.index ∨ (value? h).isSome
  removed : ∀ h, .removed h ∈ log → h.generation.toNat < log.vacancies h.index

variable {log : HandleLog α} {generation? generation'? : Nat → Option UInt32}
  {value? value'? : Handle → Option α} {h : Handle}

/-- A handle that leads to a value is as old as its slot. -/
theorem Tracks.generation_eq (ht : Tracks log generation? value?) (hh : (value? h).isSome) :
    h.generation.toNat = log.vacancies h.index := by
  rw [← ht.generations, ht.current h hh]
  rfl

/-- Two handles of one slot do not both lead to values. -/
theorem Tracks.eq_of_index_eq (ht : Tracks log generation? value?) {q : Handle}
    (hq : (value? q).isSome) (hh : (value? h).isSome) (hindex : q.index = h.index) : q = h := by
  have hgeneration := ht.current q hq
  rw [hindex, ht.current h hh] at hgeneration
  cases q
  cases h
  simp_all

/-- A removed handle leads to nothing, whatever is in its slot now. -/
theorem Tracks.gone (ht : Tracks log generation? value?) (hr : .removed h ∈ log) :
    value? h = none := by
  cases hvalue : value? h with
  | none => rfl
  | some value =>
      have hold := ht.removed h hr
      have hnow := ht.generation_eq (h := h) (by rw [hvalue]; rfl)
      omega

/-- An empty log is right about a store in which nothing was ever put. -/
theorem Tracks.empty (hgeneration : ∀ i, generation? i = none) (hvalue : ∀ h, value? h = none) :
    Tracks [] generation? value? := by
  refine ⟨fun i => ?_, fun h hh => ?_, hvalue, List.nodup_nil, by simp [storedHandles], by simp⟩
  · rw [hgeneration]
    rfl
  · rw [hvalue] at hh
    cases hh

/-- A log that is right about a store is right about every store that answers alike. -/
theorem Tracks.congr (ht : Tracks log generation? value?)
    (hgeneration : ∀ i, generation'? i = generation? i) (hvalue : ∀ h, value'? h = value? h) :
    Tracks log generation'? value'? := by
  have hgeneration' : generation'? = generation? := funext hgeneration
  have hvalue' : value'? = value? := funext hvalue
  rw [hgeneration', hvalue']
  exact ht

/-! ## Events -/

/-- A value is stored in an empty slot. -/
theorem Tracks.store (ht : Tracks log generation? value?) {value : α}
    (hempty : ∀ q : Handle, q.index = h.index → value? q = none)
    (hslot : (generation? h.index).getD 0 = h.generation)
    (hgeneration : ∀ i, generation'? i = if i = h.index then some h.generation else generation? i)
    (hvalue : ∀ q, value'? q = if q = h then some value else value? q) :
    Tracks (.stored h value :: log) generation'? value'? := by
  have hage : h.generation.toNat = log.vacancies h.index := by
    rw [← ht.generations, hslot]
  have hfresh : h ∉ log.storedHandles := by
    -- an earlier handle of the empty slot is older
    intro hmem
    rcases ht.issued h hmem with hlt | hsome
    · omega
    · rw [hempty h rfl] at hsome
      cases hsome
  refine ⟨fun i => ?_, fun q hq => ?_, fun q => ?_, List.nodup_cons.2 ⟨hfresh, ht.distinct⟩,
    fun q hq => ?_, fun q hq => ?_⟩
  · rw [hgeneration]
    by_cases hi : i = h.index
    · rw [if_pos hi, hi]
      exact hage
    · rw [if_neg hi]
      exact ht.generations i
  · rw [hvalue] at hq
    rw [hgeneration]
    by_cases hqh : q = h
    · rw [hqh, if_pos rfl]
    · rw [if_neg hqh] at hq
      have hindex : q.index ≠ h.index := by
        intro hindex
        rw [hempty q hindex] at hq
        cases hq
      rw [if_neg hindex]
      exact ht.current q hq
  · rw [hvalue, ht.meaning]
    rfl
  · rcases List.mem_cons.1 hq with rfl | hq
    · right
      rw [hvalue, if_pos rfl]
      rfl
    · rcases ht.issued q hq with hlt | hsome
      · exact Or.inl hlt
      · right
        rw [hvalue]
        split
        · rfl
        · exact hsome
  · refine ht.removed q ?_
    simpa using hq

/-- A value is changed through its handle. -/
theorem Tracks.change (ht : Tracks log generation? value?) {f : α → α}
    (hgeneration : ∀ i, generation'? i = generation? i)
    (hvalue : ∀ q, value'? q = if q = h then (value? q).map f else value? q) :
    Tracks (.changed h f :: log) generation'? value'? := by
  have hsome : ∀ q, (value'? q).isSome = (value? q).isSome := by
    intro q
    rw [hvalue]
    split
    · exact Option.isSome_map
    · rfl
  refine ⟨fun i => ?_, fun q hq => ?_, fun q => ?_, ht.distinct, fun q hq => ?_, fun q hq => ?_⟩
  · rw [hgeneration]
    exact ht.generations i
  · rw [hgeneration]
    exact ht.current q (hsome q ▸ hq)
  · rw [hvalue, ht.meaning]
    rfl
  · rw [hsome]
    exact ht.issued q hq
  · refine ht.removed q ?_
    simpa using hq

/-- A slot is vacated and its generation moves on. -/
theorem Tracks.remove (ht : Tracks log generation? value?) (hh : (value? h).isSome)
    (hbound : Bounded (.removed h :: log))
    (hgeneration : ∀ i, generation'? i =
      if i = h.index then (generation? i).map (· + 1) else generation? i)
    (hvalue : ∀ q, value'? q = if q.index = h.index then none else value? q) :
    Tracks (.removed h :: log) generation'? value'? := by
  have hage := ht.generation_eq hh
  have hcount : ∀ i, vacancies (.removed h :: log) i =
      log.vacancies i + if h.index = i then 1 else 0 := fun _ => rfl
  have hmore : ∀ i, log.vacancies i ≤ vacancies (.removed h :: log) i := vacancies_le_cons _ log
  refine ⟨fun i => ?_, fun q hq => ?_, fun q => ?_, ht.distinct, fun q hq => ?_, fun q hq => ?_⟩
  · rw [hgeneration, hcount]
    by_cases hi : i = h.index
    · -- the generation does not begin anew, because the slot was not vacated so often
      have hlt := hbound i
      rw [hcount, if_pos hi.symm] at hlt
      rw [if_pos hi, if_pos hi.symm, hi, ht.current h hh]
      show (h.generation + 1).toNat = _
      rw [UInt32.toNat_add, hage, show (1 : UInt32).toNat = 1 from rfl]
      rw [hi] at hlt
      omega
    · rw [if_neg hi, if_neg (Ne.symm hi)]
      exact ht.generations i
  · rw [hvalue] at hq
    by_cases hindex : q.index = h.index
    · rw [if_pos hindex] at hq
      cases hq
    · rw [if_neg hindex] at hq
      rw [hgeneration, if_neg hindex]
      exact ht.current q hq
  · show _ = if q = h then none else log.meaning? q
    rw [hvalue, ← ht.meaning]
    by_cases hqh : q = h
    · rw [if_pos hqh, if_pos (by rw [hqh])]
    · rw [if_neg hqh]
      split
      · next hindex =>
          -- another handle of the slot led to nothing before
          cases hq : value? q with
          | none => rfl
          | some _ => exact absurd (ht.eq_of_index_eq (by rw [hq]; rfl) hh hindex) hqh
      · rfl
  · rcases ht.issued q hq with hlt | hsome
    · exact Or.inl (Nat.lt_of_lt_of_le hlt (hmore _))
    · by_cases hindex : q.index = h.index
      · left
        rw [hcount, if_pos hindex.symm, ht.generation_eq hsome]
        omega
      · right
        rw [hvalue, if_neg hindex]
        exact hsome
  · rcases List.mem_cons.1 hq with heq | hq
    · cases heq
      rw [hcount, if_pos rfl, hage]
      omega
    · exact Nat.lt_of_lt_of_le (ht.removed q hq) (hmore _)

end HandleLog

end VaultKernel
