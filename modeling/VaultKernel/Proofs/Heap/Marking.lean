import VaultKernel.Proofs.Heap.Removal

/-!
# Marking

`Reached` says which objects a collection must keep. Marking only changes colours (`Recolored`),
and keeps the three colours in order (`Tricolor`): the gray objects are those on the stack, a black
object refers to no white one, and whatever is not white can be reached. White objects on the heap
and objects on the stack together bound the work that is left, so the stack runs empty, and then
`markFrom_white_iff` holds: exactly the objects that cannot be reached are white.
-/

namespace VaultKernel.Heap

variable {α : Type}

/-! ## Heaps that differ in colours -/

/-- The second heap is the first one in other colours. -/
structure Recolored (h h' : Heap α) : Prop where
  entries : ∀ r, (h'.entry? r).map (HeapEntry.colored .white) =
    (h.entry? r).map (HeapEntry.colored .white)
  tidy : ∀ live vacant, Tidy h live vacant → Tidy h' live vacant
  generations : ∀ i, h'.generation? i = h.generation? i

theorem Recolored.refl (h : Heap α) : Recolored h h :=
  ⟨fun _ => rfl, fun _ _ ht => ht, fun _ => rfl⟩

/-- A heap that is recoloured twice is recoloured. -/
theorem Recolored.trans {h₁ h₂ h₃ : Heap α} (h₁₂ : Recolored h₁ h₂) (h₂₃ : Recolored h₂ h₃) :
    Recolored h₁ h₃ :=
  ⟨fun r => (h₂₃.entries r).trans (h₁₂.entries r),
    fun live vacant ht => h₂₃.tidy live vacant (h₁₂.tidy live vacant ht),
    fun i => (h₂₃.generations i).trans (h₁₂.generations i)⟩

/-- Colouring an object recolours the heap. -/
theorem Recolored.setMark (h : Heap α) (r : ObjectRef) (mark : Mark) :
    Recolored h (h.setMark r mark) := by
  by_cases hr : h.contains r
  · refine ⟨?_, ?_, ?_⟩
    · intro q
      rw [entry?_setMark]
      split
      · rw [Option.map_map]
        rfl
      · rfl
    · intro live vacant ht
      rw [setMark_eq_modifyAt hr]
      exact ht.modifyAt _ _ fun _ => ⟨rfl, rfl⟩
    · intro i
      rw [setMark_eq_modifyAt hr, generation?_modifyAt]
  · rw [setMark_of_not_contains hr]
    exact Recolored.refl h

/-- What does not depend on the colour of an object is the same in both heaps. -/
theorem Recolored.map_eq {β : Type} {h h' : Heap α} (hc : Recolored h h') (r : ObjectRef)
    {f : HeapEntry α → β} (hf : ∀ e, f (HeapEntry.colored .white e) = f e) :
    (h'.entry? r).map f = (h.entry? r).map f := by
  have hr := congrArg (Option.map f) (hc.entries r)
  simp only [Option.map_map] at hr
  have hcomp : f ∘ HeapEntry.colored .white = f := funext hf
  rwa [hcomp] at hr

/-- The same objects live in other colours. -/
theorem Recolored.contains_eq {h h' : Heap α} (hc : Recolored h h') (r : ObjectRef) :
    h'.contains r = h.contains r := by
  have hr := congrArg Option.isSome (hc.entries r)
  simpa [Heap.contains] using hr

/-- Every object has the same value in other colours. -/
theorem Recolored.get?_eq {h h' : Heap α} (hc : Recolored h h') (r : ObjectRef) :
    h'.get? r = h.get? r := hc.map_eq r fun _ => rfl

/-- Every object has the same children in other colours. -/
theorem Recolored.childrenOf_eq [Traceable α] {h h' : Heap α} (hc : Recolored h h')
    (r : ObjectRef) : h'.childrenOf r = h.childrenOf r := by
  simp only [childrenOf, hc.get?_eq]

/-! ## Marks -/

/-- The colour of an object is the one in its header. -/
theorem mark?_eq (h : Heap α) (r : ObjectRef) : h.mark? r = (h.entry? r).map (·.header.mark) := by
  simp only [mark?, header?, Option.map_map]
  rfl

/-- What colour every object has after one of them was coloured. -/
theorem mark?_setMark {h : Heap α} {r : ObjectRef} (hr : h.contains r) (q : ObjectRef)
    (mark : Mark) : (h.setMark r mark).mark? q = if q = r then some mark else h.mark? q := by
  simp only [mark?_eq, entry?_setMark]
  split
  · next heq =>
      obtain ⟨e, he⟩ := Option.isSome_iff_exists.1 hr
      simp [heq, he, HeapEntry.colored]
  · rfl

/-- An object with a colour lives. -/
theorem contains_of_mark? {h : Heap α} {r : ObjectRef} {mark : Mark}
    (hr : h.mark? r = some mark) : h.contains r := by
  rw [mark?_eq, Option.map_eq_some_iff] at hr
  obtain ⟨e, he, _⟩ := hr
  simp [contains, he]

/-- A living object has a colour. -/
theorem exists_mark? {h : Heap α} {r : ObjectRef} (hr : h.contains r) :
    ∃ mark, h.mark? r = some mark := by
  obtain ⟨e, he⟩ := Option.isSome_iff_exists.1 hr
  exact ⟨e.header.mark, by rw [mark?_eq, he]; rfl⟩

variable [Traceable α]

/-! ## Reachability -/

/-- A living object that is a root or immortal, or that such an object refers to through living
ones. -/
inductive Reached (h : Heap α) (roots : List ObjectRef) : ObjectRef → Prop where
  | root {r : ObjectRef} : r ∈ roots → h.contains r → Reached h roots r
  | immortal {r : ObjectRef} {x : HeapHeader} :
      h.header? r = some x → x.immortal = true → Reached h roots r
  | child {r c : ObjectRef} {value : α} : Reached h roots r → h.get? r = some value →
      c ∈ Traceable.handles value → h.contains c → Reached h roots c

/-- What is reached lives. -/
theorem Reached.contains {h : Heap α} {roots : List ObjectRef} {r : ObjectRef}
    (hr : Reached h roots r) : h.contains r := by
  cases hr with
  | root _ hlive => exact hlive
  | immortal hx _ =>
      obtain ⟨e, he, _⟩ := Option.map_eq_some_iff.1 hx
      simp [Heap.contains, he]
  | child _ _ _ hlive => exact hlive

/-- The children of what is reached are reached, as far as they live. -/
theorem Reached.childrenOf {h : Heap α} {roots : List ObjectRef} {r c : ObjectRef}
    (hr : Reached h roots r) (hc : c ∈ h.childrenOf r) (hlive : h.contains c) :
    Reached h roots c := by
  unfold Heap.childrenOf at hc
  cases hget : h.get? r with
  | none => simp [hget] at hc
  | some value =>
      simp only [hget, Option.map_some, Option.getD_some] at hc
      exact .child hr hget hc hlive

/-! ## The order of the colours -/

/-- The colours during a marking of `h₀` that has come to the colours of `h`. -/
structure Tricolor (h₀ : Heap α) (roots : List ObjectRef) (h : Heap α) (grays : List ObjectRef) :
    Prop where
  recolored : Recolored h₀ h
  nodup : grays.Nodup
  gray_iff : ∀ r, h.mark? r = some .gray ↔ r ∈ grays
  /-- A black object refers to no white one. -/
  closed : ∀ r, h.mark? r = some .black →
    ∀ c ∈ h₀.childrenOf r, h.mark? c ≠ some .white
  /-- Whatever is not white can be reached. -/
  sound : ∀ r, h₀.contains r → h.mark? r ≠ some .white → Reached h₀ roots r

omit [Traceable α] in
/-- No object becomes white. -/
def Darker (h h' : Heap α) : Prop :=
  ∀ r, h.mark? r ≠ some .white → h'.mark? r ≠ some .white

omit [Traceable α] in
/-- The number of white objects among `live`. -/
def whites (live : List ObjectRef) (h : Heap α) : Nat :=
  (live.filter fun r => h.mark? r = some .white).length

omit [Traceable α] in
/-- An object that loses its white colour leaves one white object less. -/
theorem whites_setMark {live : List ObjectRef} {h : Heap α} {r : ObjectRef}
    (hnodup : live.Nodup) (hmem : r ∈ live) (hr : h.mark? r = some .white) :
    whites live (h.setMark r .gray) + 1 = whites live h := by
  have hfilter : (live.filter fun q => (h.setMark r .gray).mark? q = some .white) =
      (live.filter fun q => h.mark? q = some .white).erase r := by
    rw [(hnodup.filter _).erase_eq_filter, List.filter_filter]
    apply List.filter_congr
    intro q _
    rw [mark?_setMark (contains_of_mark? hr)]
    by_cases hq : q = r <;> simp [hq]
  have hmem' : r ∈ live.filter fun q => h.mark? q = some .white :=
    List.mem_filter.2 ⟨hmem, by simpa using hr⟩
  rw [whites, hfilter]
  exact List.length_erase_add_one hmem'

omit [Traceable α] in
/-- An object that turns from gray to black is not a white one in between. -/
theorem whites_blacken (live : List ObjectRef) {h : Heap α} {r : ObjectRef}
    (hr : h.mark? r = some .gray) : whites live (h.setMark r .black) = whites live h := by
  unfold whites
  congr 1
  apply List.filter_congr
  intro q _
  rw [mark?_setMark (contains_of_mark? hr)]
  by_cases hq : q = r <;> simp [hq, hr]

/-- Shading one object that can be reached keeps the colours in order. The objects `active` are gray
but no longer on the stack. -/
theorem Tricolor.shade {h₀ h : Heap α} {roots active stack live : List ObjectRef} {c : ObjectRef}
    (ht : Tricolor h₀ roots h (active ++ stack)) (hc : h₀.contains c → Reached h₀ roots c)
    (hnodup : live.Nodup) (hlive : ∀ r, h₀.contains r → r ∈ live) :
    let shaded := shade (h, stack) c
    Tricolor h₀ roots shaded.1 (active ++ shaded.2) ∧ Darker h shaded.1 ∧
      shaded.1.mark? c ≠ some .white ∧
      whites live shaded.1 + shaded.2.length = whites live h + stack.length := by
  by_cases hwhite : h.mark? c = some .white
  · have hcontains := contains_of_mark? hwhite
    have hreached : h₀.contains c := ht.recolored.contains_eq c ▸ hcontains
    have hmark := mark?_setMark hcontains
    have hgray : c ∉ active ++ stack := by
      rw [← ht.gray_iff, hwhite]
      simp
    have hcount := whites_setMark hnodup (hlive c hreached) hwhite
    simp only [Heap.shade, hwhite, if_true]
    refine ⟨⟨ht.recolored.trans (.setMark h c .gray), ?_, ?_, ?_, ?_⟩, ?_, ?_, ?_⟩
    · rw [List.nodup_middle, List.nodup_cons]
      exact ⟨hgray, ht.nodup⟩
    · intro r
      rw [hmark]
      by_cases hr : r = c
      · simp [hr]
      · simpa [hr] using ht.gray_iff r
    · intro r hr k hk
      rw [hmark] at hr ⊢
      by_cases hrc : r = c
      · simp [hrc] at hr
      · rw [if_neg hrc] at hr
        split
        · simp
        · exact ht.closed r hr k hk
    · intro r hr hmark'
      rw [hmark] at hmark'
      by_cases hrc : r = c
      · exact hrc ▸ hc hreached
      · rw [if_neg hrc] at hmark'
        exact ht.sound r hr hmark'
    · intro r hr
      rw [hmark]
      split
      · simp
      · exact hr
    · rw [hmark]
      simp
    · simp only [List.length_cons]
      omega
  · simp only [Heap.shade, if_neg hwhite]
    exact ⟨ht, fun _ hr => hr, hwhite, trivial⟩

/-- Shading several objects keeps the colours in order and leaves none of them white. -/
theorem Tricolor.shadeAll {cs : List ObjectRef} {h₀ h : Heap α}
    {roots stack live : List ObjectRef} (active : List ObjectRef)
    (ht : Tricolor h₀ roots h (active ++ stack))
    (hcs : ∀ c ∈ cs, h₀.contains c → Reached h₀ roots c)
    (hnodup : live.Nodup) (hlive : ∀ r, h₀.contains r → r ∈ live) :
    let shaded := Heap.shadeAll (h, stack) cs
    Tricolor h₀ roots shaded.1 (active ++ shaded.2) ∧ Darker h shaded.1 ∧
      (∀ c ∈ cs, shaded.1.mark? c ≠ some .white) ∧
      whites live shaded.1 + shaded.2.length = whites live h + stack.length := by
  induction cs generalizing h stack with
  | nil => exact ⟨ht, fun _ hr => hr, by simp, rfl⟩
  | cons c rest ih =>
      obtain ⟨ht', hdark, hwhite, hcount⟩ := ht.shade (hcs c (by simp)) hnodup hlive
      obtain ⟨ht'', hdark', hwhite', hcount'⟩ := ih ht' fun k hk => hcs k (by simp [hk])
      refine ⟨ht'', fun r hr => hdark' r (hdark r hr), ?_, hcount'.trans hcount⟩
      intro k hk
      rcases List.mem_cons.1 hk with rfl | hk
      · exact hdark' k hwhite
      · exact hwhite' k hk

/-- A gray object becomes black once none of the objects that it refers to is white. -/
theorem Tricolor.blacken {h₀ h : Heap α} {roots stack : List ObjectRef} {r : ObjectRef}
    (ht : Tricolor h₀ roots h (r :: stack))
    (hchildren : ∀ c ∈ h₀.childrenOf r, h.mark? c ≠ some .white) :
    Tricolor h₀ roots (h.setMark r .black) stack := by
  have hgray : h.mark? r = some .gray := (ht.gray_iff r).2 (by simp)
  have hmark := mark?_setMark (contains_of_mark? hgray)
  obtain ⟨hfresh, hstack⟩ := List.nodup_cons.1 ht.nodup
  refine ⟨ht.recolored.trans (.setMark h r .black), hstack, ?_, ?_, ?_⟩
  · intro q
    rw [hmark]
    by_cases hq : q = r
    · simpa [hq] using hfresh
    · simpa [hq] using ht.gray_iff q
  · intro q hq c hc
    rw [hmark] at hq ⊢
    by_cases hcr : c = r
    · simp [hcr]
    · rw [if_neg hcr]
      by_cases hqr : q = r
      · exact hchildren c (hqr ▸ hc)
      · rw [if_neg hqr] at hq
        exact ht.closed q hq c hc
  · intro q hq hnot
    rw [hmark] at hnot
    by_cases hqr : q = r
    · exact ht.sound q hq (by simp [hqr, hgray])
    · rw [if_neg hqr] at hnot
      exact ht.sound q hq hnot

/-- Draining the stack keeps the colours in order and leaves no gray object, if there is fuel for
every white object and every object on the stack. -/
theorem Tricolor.drain {fuel : Nat} {h₀ h : Heap α} {roots stack live : List ObjectRef}
    (ht : Tricolor h₀ roots h stack) (hnodup : live.Nodup)
    (hlive : ∀ r, h₀.contains r → r ∈ live) (hfuel : whites live h + stack.length ≤ fuel) :
    Tricolor h₀ roots (Heap.drain fuel h stack) [] ∧ Darker h (Heap.drain fuel h stack) := by
  induction fuel generalizing h stack with
  | zero =>
      have hstack : stack = [] := List.eq_nil_of_length_eq_zero (by omega)
      subst hstack
      exact ⟨ht, fun _ hr => hr⟩
  | succ fuel ih =>
      cases stack with
      | nil => exact ⟨ht, fun _ hr => hr⟩
      | cons r stack =>
          have hgray : h.mark? r = some .gray := (ht.gray_iff r).2 (by simp)
          have hr : h₀.contains r := ht.recolored.contains_eq r ▸ contains_of_mark? hgray
          have hreached : Reached h₀ roots r := ht.sound r hr (by simp [hgray])
          have hchildren : ∀ c ∈ h.childrenOf r, h₀.contains c → Reached h₀ roots c := by
            intro c hc
            rw [ht.recolored.childrenOf_eq] at hc
            exact hreached.childrenOf hc
          obtain ⟨ht', hdark, hwhite, hcount⟩ :=
            Tricolor.shadeAll [r] ht hchildren hnodup hlive
          simp only [Heap.drain]
          generalize Heap.shadeAll (h, stack) (h.childrenOf r) = shaded at ht' hdark hwhite hcount
          obtain ⟨shaded, stack'⟩ := shaded
          have hgray' : shaded.mark? r = some .gray := (ht'.gray_iff r).2 (by simp)
          have hblack : Tricolor h₀ roots (shaded.setMark r .black) stack' := by
            refine ht'.blacken fun c hc => hwhite c ?_
            rw [ht.recolored.childrenOf_eq]
            exact hc
          -- the object has left the stack, and its children were counted as white ones before
          have hless : whites live (shaded.setMark r .black) + stack'.length ≤ fuel := by
            rw [whites_blacken live hgray', hcount]
            rw [List.length_cons] at hfuel
            omega
          obtain ⟨hdone, hdark'⟩ := ih hblack hless
          refine ⟨hdone, fun q hq => hdark' q ?_⟩
          rw [mark?_setMark (contains_of_mark? hgray')]
          split
          · simp
          · exact hdark q hq

/-! ## Whole markings -/

omit [Traceable α] in
/-- No object is coloured yet. -/
def AllWhite (h : Heap α) : Prop := ∀ r mark, h.mark? r = some mark → mark = .white

omit [Traceable α] in
/-- The immortal objects are seen without the links. -/
theorem immortals_eq (h : Heap α) :
    h.immortals = h.handles.filter fun r => (h.bare? r).any (·.header.immortal) := by
  apply List.filter_congr
  intro r _
  simp only [header?, bare?]
  cases h.entry? r <;> rfl

omit [Traceable α] in
/-- The immortal objects are the living ones whose header says so. -/
theorem Living.mem_immortals_iff {h : Heap α} {live : List Nat} (hl : Living h live)
    (r : ObjectRef) :
    r ∈ h.immortals ↔ ∃ x, h.header? r = some x ∧ x.immortal = true := by
  rw [immortals, List.mem_filter, hl.mem_handles_iff]
  cases hx : h.header? r with
  | none => simp
  | some x =>
      have hr : h.contains r := by
        obtain ⟨e, he, _⟩ := Option.map_eq_some_iff.1 hx
        simp [contains, he]
      simp [hr]

/-- Before anything is shaded the colours are in order. -/
theorem Tricolor.start {h : Heap α} (roots : List ObjectRef) (hwhite : AllWhite h) :
    Tricolor h roots h [] := by
  refine ⟨.refl h, List.nodup_nil, ?_, ?_, ?_⟩
  · intro r
    simp only [List.not_mem_nil, iff_false]
    intro hr
    cases hwhite r _ hr
  · intro r hr
    cases hwhite r _ hr
  · intro r hr hnot
    obtain ⟨mark, hmark⟩ := exists_mark? hr
    exact absurd (hwhite r mark hmark ▸ hmark) hnot

/-- After a marking exactly the living objects that cannot be reached are white, and nothing but
colours has changed. -/
theorem markFrom_white_iff {h : Heap α} {live vacant : List Nat} (ht : Tidy h live vacant)
    (hwhite : AllWhite h) (roots : List ObjectRef) :
    Recolored h (h.markFrom roots) ∧
      ∀ r, h.contains r → ((h.markFrom roots).mark? r = some .white ↔ ¬ Reached h roots r) := by
  have hl := ht.living
  have hnodup : h.handles.Nodup := List.Nodup.of_map _ hl.nodup_indices
  have hmem : ∀ r, h.contains r → r ∈ h.handles := fun r => (hl.mem_handles_iff r).2
  have hroots : ∀ r ∈ roots ++ h.immortals, h.contains r → Reached h roots r := by
    intro r hr hlive
    rcases List.mem_append.1 hr with hr | hr
    · exact .root hr hlive
    · obtain ⟨x, hx, himmortal⟩ := (hl.mem_immortals_iff r).1 hr
      exact .immortal hx himmortal
  obtain ⟨htri, _, hshaded, hcount⟩ :=
    Tricolor.shadeAll [] (Tricolor.start roots hwhite) hroots hnodup hmem
  have hfuel : whites h.handles (shadeAll (h, []) (roots ++ h.immortals)).1 +
      (shadeAll (h, []) (roots ++ h.immortals)).2.length ≤ h.slots.size := by
    rw [hcount, whites]
    have hfilter := List.length_filter_le (fun r => decide (h.mark? r = some .white)) h.handles
    have hlength : h.handles.length ≤ h.slots.size := by
      rw [hl.handles_eq, List.length_map]
      exact hl.length_le
    simp only [List.length_nil]
    omega
  obtain ⟨hdone, hdark⟩ := htri.drain hnodup hmem hfuel
  refine ⟨hdone.recolored, ?_⟩
  have hcomplete : ∀ r, Reached h roots r → (h.markFrom roots).mark? r ≠ some .white := by
    intro r hr
    induction hr with
    | root hr _ => exact hdark _ (hshaded _ (by simp [hr]))
    | immortal hx himmortal =>
        have hr := (hl.mem_immortals_iff _).2 ⟨_, hx, himmortal⟩
        exact hdark _ (hshaded _ (by simp [hr]))
    | @child r c value hr hget hc _ ih =>
        -- an object that is neither white nor gray is black, and black ones refer to no white one
        obtain ⟨mark, hmark⟩ := exists_mark? (hdone.recolored.contains_eq r ▸ hr.contains)
        have hblack : mark = .black := by
          cases mark with
          | white => exact absurd hmark ih
          | gray => simpa using (hdone.gray_iff r).1 hmark
          | black => rfl
        exact hdone.closed r (hblack ▸ hmark) c (by simpa [childrenOf, hget] using hc)
  intro r hr
  constructor
  · intro hmark hreached
    exact hcomplete r hreached hmark
  · intro hreached
    by_contra hmark
    exact hreached (hdone.sound r hr hmark)

end VaultKernel.Heap
