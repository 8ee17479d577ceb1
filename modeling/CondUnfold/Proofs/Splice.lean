import CondUnfold.Edit

/-!
# Edits put in place

Edits that stand in the order of the source and do not overlap can be carried out one by one from
the last to the first, since an edit changes nothing before its start. What comes out is the source
with all spans replaced at once (`Edit.applyAll_eq_patched`). Edits that are given in another order are
sorted first. There is one way to do this that keeps those with one start in their order
(`Edit.StablySorted.eq_sort`), and to look at neighbours is enough to find an overlap, since spans that
do not overlap their neighbours lie further and further behind (`Edit.pairwise_of_overlap?`).
-/

namespace CondUnfold.Edit

/-- The source from `position` on with the spans of the edits replaced, all positions being those of
the source. -/
def patched (source : Bytes) (position : Nat) : List Edit → Bytes
  | [] => source.drop position
  | e :: es =>
    (source.take e.start.toNat).drop position ++ e.replacement ++ patched source e.stop.toNat es

/-- The edits have spans in the source from `position` on, one behind the other. -/
inductive InOrder (source : Bytes) : (position : Nat) → List Edit → Prop where
  | nil : InOrder source position []
  | cons {e : Edit} {start stop : Nat} : e.start = start → e.stop = stop → position ≤ start →
    start ≤ stop → stop ≤ source.length → InOrder source stop es → InOrder source position (e :: es)

variable {source : Bytes} {position : Nat} {edits : List Edit}

/-- An edit keeps what is before its span, and what is behind it if that is not yet changed. -/
theorem apply_take_append {e : Edit} {start stop : Nat} (hstart : e.start = start)
    (hstop : e.stop = stop) (hle : start ≤ stop) (hbound : stop ≤ source.length) (rest : Bytes) :
    e.apply (source.take stop ++ rest) = source.take start ++ e.replacement ++ rest := by
  have hlen : (source.take stop).length = stop := List.length_take_of_le hbound
  have hstop' : stop ≤ (source.take stop ++ rest).length := by
    rw [List.length_append, hlen]
    omega
  rw [apply, sliceBefore, sliceFrom, hstart, hstop, slicePoint_natCast (Nat.le_trans hle hstop'),
    slicePoint_natCast hstop', List.take_append_of_le_length (by omega), List.take_take,
    Nat.min_eq_left hle, List.drop_append_of_le_length (by omega), List.drop_of_length_le (by omega),
    List.nil_append]

theorem foldr_apply (h : InOrder source position edits) :
    edits.foldr apply source = source.take position ++ patched source position edits := by
  induction h with
  | nil => exact (List.take_append_drop _ source).symm
  | @cons position es e start stop hstart hstop hpos hle hbound _ ih =>
    have hsplit := List.take_append_drop position (source.take start)
    rw [List.take_take, Nat.min_eq_left hpos] at hsplit
    rw [List.foldr_cons, ih, apply_take_append hstart hstop hle hbound, patched, hstart, hstop,
      Int.toNat_natCast, Int.toNat_natCast, ← List.append_assoc, ← List.append_assoc, hsplit]

theorem overlap?_of_pairwise (h : edits.Pairwise fun e f => e.stop ≤ f.start) :
    overlap? edits = none := by
  fun_induction overlap? edits with
  | case1 e f rest hlt =>
    have hle := (List.pairwise_cons.mp h).1 f List.mem_cons_self
    omega
  | case2 e f rest _ ih => exact ih h.of_cons
  | case3 => rfl

namespace InOrder

theorem le_start (h : InOrder source position edits) {e : Edit} (he : e ∈ edits) :
    position ≤ e.start ∧ e.start ≤ e.stop := by
  induction h with
  | nil => cases he
  | cons hstart hstop hpos hle _ _ ih =>
    rcases List.mem_cons.mp he with rfl | he
    · omega
    · have := ih he
      omega

theorem pairwise (h : InOrder source position edits) :
    edits.Pairwise fun e f => e.stop ≤ f.start := by
  induction h with
  | nil => exact .nil
  | cons _ hstop _ _ _ hrest ih =>
    exact .cons (fun f hf => hstop ▸ (hrest.le_start hf).1) ih

theorem sort_eq (h : InOrder source position edits) : sort edits = edits := by
  apply List.mergeSort_of_pairwise
  refine h.pairwise.imp_of_mem fun {e f} he _ hef => ?_
  have hle := (h.le_start he).2
  exact decide_eq_true (by omega)

theorem overlap?_eq_none (h : InOrder source position edits) : overlap? edits = none :=
  overlap?_of_pairwise h.pairwise

end InOrder

theorem applyAll_singleton (e : Edit) (source : Bytes) :
    applyAll [e] source = .ok (e.apply source) := by
  simp [applyAll, sort, overlap?]

theorem applyAll_of_sort (h : InOrder source 0 (sort edits)) :
    applyAll edits source = .ok (patched source 0 (sort edits)) := by
  simp only [applyAll, h.overlap?_eq_none, foldr_apply h, List.take_zero, List.nil_append]

/-- **Edits in order are all put in place, and nothing else is changed.** -/
theorem applyAll_eq_patched (h : InOrder source 0 edits) :
    applyAll edits source = .ok (patched source 0 edits) := by
  have hsort := h.sort_eq
  rw [applyAll_of_sort (hsort.symm ▸ h), hsort]

/-! ## Edits in any order -/

/-- The edit has a span in the source. -/
def InBounds (source : Bytes) (e : Edit) : Prop :=
  0 ≤ e.start ∧ e.start ≤ e.stop ∧ e.stop ≤ source.length

instance (source : Bytes) (e : Edit) : Decidable (InBounds source e) :=
  inferInstanceAs (Decidable (_ ∧ _ ∧ _))

/-- `sorted` are the edits in the order of their starts; those with one start are in the order in
which they were given. -/
structure StablySorted (edits sorted : List Edit) : Prop where
  ordered : sorted.Pairwise fun e f => e.start ≤ f.start
  stable : ∀ position, sorted.filter (·.start == position) = edits.filter (·.start == position)

/-- Of two edits in the list, next to each other or not, the later one begins before the earlier one
ends. -/
def Overlapping (edits : List Edit) : Prop :=
  ∃ earlier later, [earlier, later].Sublist edits ∧ later.start < earlier.stop

theorem not_overlapping_iff : ¬ Overlapping edits ↔ edits.Pairwise fun e f => e.stop ≤ f.start := by
  rw [List.pairwise_iff_forall_sublist]
  constructor
  · intro h e f hsub
    exact Int.not_lt.mp fun hlt => h ⟨e, f, hsub, hlt⟩
  · rintro h ⟨e, f, hsub, hlt⟩
    exact Int.not_lt.mpr (h hsub) hlt

theorem start_le_trans (e f g : Edit) : decide (e.start ≤ f.start) = true →
    decide (f.start ≤ g.start) = true → decide (e.start ≤ g.start) = true := by
  simp only [decide_eq_true_eq]
  exact Int.le_trans

theorem start_le_total (e f : Edit) :
    (decide (e.start ≤ f.start) || decide (f.start ≤ e.start)) = true := by
  simpa using Int.le_total e.start f.start

theorem sort_stablySorted (edits : List Edit) : StablySorted edits (sort edits) where
  ordered :=
    (List.pairwise_mergeSort start_le_trans start_le_total edits).imp of_decide_eq_true
  stable position := by
    have hsame : (edits.filter (·.start == position)).Pairwise
        fun e f => decide (e.start ≤ f.start) = true := by
      apply List.pairwise_of_forall_mem_list
      intro e he f hf
      have he := eq_of_beq (List.mem_filter.mp he).2
      have hf := eq_of_beq (List.mem_filter.mp hf).2
      exact decide_eq_true (by omega)
    have hsub := (List.sublist_mergeSort start_le_trans start_le_total hsame
      List.filter_sublist).filter (·.start == position)
    simp only [List.filter_filter, Bool.and_self] at hsub
    have hperm : ((sort edits).filter (·.start == position)).Perm
        (edits.filter (·.start == position)) := (List.mergeSort_perm edits _).filter _
    exact (hsub.eq_of_length hperm.length_eq.symm).symm

theorem mem_of_filter_start {xs ys : List Edit}
    (h : ∀ position, xs.filter (·.start == position) = ys.filter (·.start == position)) {e : Edit}
    (he : e ∈ xs) : e ∈ ys := by
  have hmem : e ∈ xs.filter (·.start == e.start) :=
    List.mem_filter.mpr ⟨he, beq_self_eq_true e.start⟩
  rw [h] at hmem
  exact (List.mem_filter.mp hmem).1

/-- There is one way to put edits in order. -/
theorem eq_of_filter_start {xs ys : List Edit} (hxs : xs.Pairwise fun e f => e.start ≤ f.start)
    (hys : ys.Pairwise fun e f => e.start ≤ f.start)
    (h : ∀ position, xs.filter (·.start == position) = ys.filter (·.start == position)) :
    xs = ys := by
  induction xs generalizing ys with
  | nil =>
    apply Eq.symm
    apply List.eq_nil_iff_forall_not_mem.mpr
    intro y hy
    cases mem_of_filter_start (fun position => (h position).symm) hy
  | cons x xs ih =>
    cases ys with
    | nil => cases mem_of_filter_start h List.mem_cons_self
    | cons y ys =>
      obtain ⟨hx, hxs'⟩ := List.pairwise_cons.mp hxs
      obtain ⟨hy, hys'⟩ := List.pairwise_cons.mp hys
      -- Either list has the other's first edit, which does not begin before its own first one.
      have hstart : x.start = y.start := by
        apply Int.le_antisymm
        · have hmem := mem_of_filter_start (fun position => (h position).symm) List.mem_cons_self
          rcases List.mem_cons.mp hmem with rfl | hmem
          · exact Int.le_refl _
          · exact hx y hmem
        · rcases List.mem_cons.mp (mem_of_filter_start h List.mem_cons_self) with rfl | hmem
          · exact Int.le_refl _
          · exact hy x hmem
      have hhead := h x.start
      have hfirst : (y.start == x.start) = true := beq_iff_eq.mpr hstart.symm
      simp only [List.filter_cons, beq_self_eq_true, hfirst, if_true] at hhead
      obtain ⟨rfl, htail⟩ := List.cons.inj hhead
      congr 1
      apply ih hxs' hys'
      intro position
      by_cases hposition : x.start = position
      · exact hposition ▸ htail
      · have hskip : (x.start == position) = false := beq_false_of_ne hposition
        have hrest := h position
        simpa only [List.filter_cons, hskip, Bool.false_eq_true, if_false] using hrest

theorem StablySorted.eq_sort {sorted : List Edit} (h : StablySorted edits sorted) :
    sorted = sort edits := by
  have hsort := sort_stablySorted edits
  apply eq_of_filter_start h.ordered hsort.ordered
  intro position
  rw [h.stable, hsort.stable]

theorem pairwise_of_overlap? (hle : ∀ e ∈ edits, e.start ≤ e.stop) (h : overlap? edits = none) :
    edits.Pairwise fun e f => e.stop ≤ f.start := by
  fun_induction overlap? edits with
  | case1 e f rest hlt => cases h
  | case2 e f rest hlt ih =>
    obtain ⟨_, hle⟩ := List.forall_mem_cons.mp hle
    have hrest := ih hle h
    refine List.pairwise_cons.mpr ⟨?_, hrest⟩
    intro g hg
    rcases List.mem_cons.mp hg with rfl | hg
    · omega
    · have hf := hle f List.mem_cons_self
      have hfg := (List.pairwise_cons.mp hrest).1 g hg
      omega
  | case3 es hshort =>
    cases es with
    | nil => exact .nil
    | cons e es =>
      cases es with
      | nil => exact List.pairwise_singleton _ e
      | cons f rest => exact absurd rfl (hshort e f rest)

theorem inOrder_of_pairwise (hspans : ∀ e ∈ edits, InBounds source e)
    (hposition : ∀ e ∈ edits, position ≤ e.start)
    (h : edits.Pairwise fun e f => e.stop ≤ f.start) : InOrder source position edits := by
  induction edits generalizing position with
  | nil => exact .nil
  | cons e es ih =>
    obtain ⟨⟨hstart, hle, hstop⟩, hspans⟩ := List.forall_mem_cons.mp hspans
    obtain ⟨hnext, hes⟩ := List.pairwise_cons.mp h
    have hfirst := hposition e List.mem_cons_self
    have hstartNat : e.start = e.start.toNat := by omega
    have hstopNat : e.stop = e.stop.toNat := by omega
    have hrest : ∀ f ∈ es, (e.stop.toNat : Int) ≤ f.start := by
      intro f hf
      exact hstopNat ▸ hnext f hf
    exact .cons hstartNat hstopNat (by omega) (by omega) (by omega) (ih hspans hrest hes)

/-- **Edits are carried out as if all at once.** They are refused exactly if, in the order of their
starts, one begins before the end of another that comes earlier. Otherwise each span of the source is
replaced, and what stands between the spans is kept. -/
theorem applyAll_at_once {sorted : List Edit} (hspans : ∀ e ∈ edits, InBounds source e)
    (hsorted : StablySorted edits sorted) :
    ((∃ a b c d, applyAll edits source = .error (.overlappingEdits a b c d)) ↔ Overlapping sorted) ∧
      (¬ Overlapping sorted → applyAll edits source = .ok (patched source 0 sorted)) := by
  obtain rfl := hsorted.eq_sort
  have hspans' : ∀ e ∈ sort edits, InBounds source e := by
    intro e he
    exact hspans e (List.mem_mergeSort.mp he)
  have hok : ¬ Overlapping (sort edits) →
      applyAll edits source = .ok (patched source 0 (sort edits)) := by
    intro h
    apply applyAll_of_sort
    exact inOrder_of_pairwise hspans' (fun e he => (hspans' e he).1) (not_overlapping_iff.mp h)
  refine ⟨⟨?_, ?_⟩, hok⟩
  · rintro ⟨a, b, c, d, herror⟩
    apply Classical.byContradiction
    intro h
    cases (hok h).symm.trans herror
  · intro h
    cases hoverlap : overlap? (sort edits) with
    | none =>
      have hle := fun e he => (hspans' e he).2.1
      exact absurd h (not_overlapping_iff.mpr (pairwise_of_overlap? hle hoverlap))
    | some pair =>
      obtain ⟨e, f⟩ := pair
      exact ⟨e.start, e.stop, f.start, f.stop, by simp only [applyAll, hoverlap]⟩

namespace TouchingSpans

def text : Bytes := Utf8.encode "abcdef"
def behind : Edit := ⟨4, 6, Utf8.encode "Z"⟩
def between : Edit := ⟨2, 2, Utf8.encode "X"⟩
def middle : Edit := ⟨2, 4, Utf8.encode "Y"⟩

theorem stablySorted_behind {e f : Edit} (he : e.start = 2) (hf : f.start = 2) :
    StablySorted [behind, e, f] [e, f, behind] := by
  refine ⟨by simp [he, hf, behind], ?_⟩
  intro position
  by_cases h : position = 4
  · subst h
    simp [he, hf, behind]
  · have hskip : (behind.start == position) = false := beq_false_of_ne (Ne.symm h)
    simp only [List.filter_cons, hskip, Bool.false_eq_true, if_false, List.filter_nil]

/-- An empty span and the span that begins where it is touch the next one. Both are replaced if the
empty one was given first; otherwise it begins inside the other. -/
theorem applyAll_by_order_given :
    applyAll [behind, between, middle] text = .ok (Utf8.encode "abXYZ") ∧
      ∃ a b c d, applyAll [behind, middle, between] text = .error (.overlappingEdits a b c d) := by
  have hspans : ∀ e ∈ [behind, between, middle], InBounds text e := by decide
  have hspans' : ∀ e ∈ [behind, middle, between], InBounds text e := by decide
  have happart : ¬ Overlapping [between, middle, behind] :=
    not_overlapping_iff.mpr (by decide)
  have hoverlap : Overlapping [middle, between, behind] :=
    ⟨middle, between, List.sublist_append_left [middle, between] [behind], by decide⟩
  exact ⟨(applyAll_at_once hspans (stablySorted_behind rfl rfl)).2 happart,
    (applyAll_at_once hspans' (stablySorted_behind rfl rfl)).1.mpr hoverlap⟩

end TouchingSpans
end CondUnfold.Edit
