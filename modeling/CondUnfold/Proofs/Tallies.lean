import CondUnfold.Report
import Mathlib.Algebra.GroupWithZero.Nat

/-!
# Counting and merging

Records are counted by going through their keys one after another, with a list of counts by
increasing key. Adding one to a count keeps the list in order and makes it right for one key more
(`Counts.concat`), so that in the end it is right for all keys (`counts_tally`). Merging adds up
reports by an operation that is associative (`Report.absorb_assoc`) and for which a report with
nothing in it does nothing (`Report.absorb_blank`). Hence merging in parts is merging at once, and
the counts of a merged report are sums (`Report.merge_in_parts`).
-/

namespace CondUnfold

/-! ## Counting -/

/-- The counts stand by increasing key, none of them is zero, and they add up to `total`. -/
structure Breakdown (total : Nat) (counts : List (String × Nat)) : Prop where
  increasing : (counts.map (·.1)).Pairwise (· < ·)
  positive : ∀ c ∈ counts, 0 < c.2
  sum : (counts.map (·.2)).sum = total

/-- The list says how often each key occurs in `keys`. -/
structure Counts (keys : List String) (counts : List (String × Nat)) : Prop
    extends Breakdown keys.length counts where
  count : ∀ key, countOf key counts = keys.count key

variable {key k : String} {n : Nat} {keys : List String} {counts : List (String × Nat)}

theorem countOf_cons (key k : String) (n : Nat) (counts : List (String × Nat)) :
    countOf key ((k, n) :: counts) = if key = k then n else countOf key counts := by
  by_cases h : key = k
  · simp [countOf, h]
  · have hbeq : (key == k) = false := beq_false_of_ne h
    simp only [countOf, List.lookup_cons, hbeq, if_neg h]

/-- A key before all keys of the list has no count in it. -/
theorem countOf_eq_zero (h : ∀ k ∈ counts.map (·.1), key < k) : countOf key counts = 0 := by
  induction counts with
  | nil => rfl
  | cons c counts ih =>
    obtain ⟨hc, hcounts⟩ := List.forall_mem_cons.mp h
    have hne : key ≠ c.1 := by
      rintro rfl
      exact String.lt_irrefl _ hc
    rw [countOf_cons, if_neg hne, ih hcounts]

theorem mem_keys_bump {k : String} (h : k ∈ (bump key counts).map (·.1)) :
    k = key ∨ k ∈ counts.map (·.1) := by
  fun_induction bump key counts with
  | case1 => exact .inl (List.mem_singleton.mp h)
  | case2 => exact List.mem_cons.mp h
  | case3 k' n rest _ _ ih =>
    rcases List.mem_cons.mp h with rfl | h
    · exact .inr List.mem_cons_self
    · exact (ih h).imp_right (List.mem_cons_of_mem k')
  | case4 => exact .inr h

theorem increasing_bump (h : (counts.map (·.1)).Pairwise (· < ·)) :
    ((bump key counts).map (·.1)).Pairwise (· < ·) := by
  fun_induction bump key counts with
  | case1 => exact List.pairwise_singleton _ _
  | case2 k n rest hlt =>
    refine List.pairwise_cons.mpr ⟨List.forall_mem_cons.mpr ⟨hlt, fun c hc => ?_⟩, h⟩
    exact String.lt_trans hlt (List.rel_of_pairwise_cons h hc)
  | case3 k n rest _ hlt ih =>
    obtain ⟨hfirst, hrest⟩ := List.pairwise_cons.mp h
    refine List.pairwise_cons.mpr ⟨fun c hc => ?_, ih hrest⟩
    rcases mem_keys_bump hc with rfl | hc
    · exact hlt
    · exact hfirst c hc
  | case4 => exact h

theorem positive_bump (h : ∀ c ∈ counts, 0 < c.2) : ∀ c ∈ bump key counts, 0 < c.2 := by
  fun_induction bump key counts with
  | case1 => exact List.forall_mem_singleton.mpr Nat.one_pos
  | case2 => exact List.forall_mem_cons.mpr ⟨Nat.one_pos, h⟩
  | case3 k n rest _ _ ih =>
    obtain ⟨hfirst, hrest⟩ := List.forall_mem_cons.mp h
    exact List.forall_mem_cons.mpr ⟨hfirst, ih hrest⟩
  | case4 k n rest =>
    exact List.forall_mem_cons.mpr ⟨Nat.succ_pos n, (List.forall_mem_cons.mp h).2⟩

theorem sum_bump (key : String) (counts : List (String × Nat)) :
    ((bump key counts).map (·.2)).sum = (counts.map (·.2)).sum + 1 := by
  fun_induction bump key counts with
  | case1 => rfl
  | case2 | case4 => simp only [List.map_cons, List.sum_cons]; omega
  | case3 k n rest _ _ ih => simp only [List.map_cons, List.sum_cons, ih]; omega

/-- The order matters here: a key that is put in front of a larger one must not stand further back
as well. -/
theorem countOf_bump (h : (counts.map (·.1)).Pairwise (· < ·)) (key' : String) :
    countOf key' (bump key counts) = countOf key' counts + if key' = key then 1 else 0 := by
  fun_induction bump key counts with
  | case1 => rw [countOf_cons, Nat.add_comm]; rfl
  | case2 k n rest hlt =>
    rw [countOf_cons]
    split
    next heq =>
      have hbefore : ∀ c ∈ ((k, n) :: rest).map (·.1), key < c :=
        List.forall_mem_cons.mpr
          ⟨hlt, fun c hc => String.lt_trans hlt (List.rel_of_pairwise_cons h hc)⟩
      rw [heq, countOf_eq_zero hbefore]
    next => rfl
  | case3 k n rest _ hlt ih =>
    rw [countOf_cons, countOf_cons, ih (List.pairwise_cons.mp h).2]
    split
    next heq =>
      have hne : key' ≠ key := by
        rintro rfl
        exact String.lt_irrefl _ (heq ▸ hlt)
      rw [if_neg hne, Nat.add_zero]
    next => rfl
  | case4 k n rest hle hge =>
    -- the key is neither smaller nor larger than that of the entry
    obtain rfl : key = k := String.le_antisymm (String.not_lt.mp hge) (String.not_lt.mp hle)
    rw [countOf_cons, countOf_cons]
    split <;> rfl

/-- Adding one to the count of a key is counting one key more. -/
theorem Counts.concat (h : Counts keys counts) (key : String) :
    Counts (keys ++ [key]) (bump key counts) where
  increasing := increasing_bump h.increasing
  positive := positive_bump h.positive
  sum := by rw [sum_bump, h.sum, List.length_append, List.length_singleton]
  count key' := by
    rw [countOf_bump h.increasing, h.count, List.count_append, List.count_singleton]
    simp only [beq_iff_eq, @eq_comm _ key' key]

theorem counts_nil : Counts [] [] where
  increasing := .nil
  positive := List.forall_mem_nil _
  sum := rfl
  count _ := rfl

theorem Counts.append (h : Counts keys counts) (rest : List String) :
    Counts (keys ++ rest) (rest.foldl (fun t k => bump k t) counts) := by
  induction rest generalizing keys counts with
  | nil => rw [List.append_nil]; exact h
  | cons key rest ih =>
    -- the key that is counted next joins those that have been counted
    rw [← List.singleton_append, ← List.append_assoc]
    exact ih (h.concat key)

/-- **A tally counts the keys.** -/
theorem counts_tally (keys : List String) : Counts keys (tally keys) :=
  counts_nil.append keys

/-- The count of a key in several lists that are counted as one. -/
theorem countOf_tally_flatMap {α : Type} (f : α → List String) (as : List α) (key : String) :
    countOf key (tally (as.flatMap f)) = (as.map fun a => countOf key (tally (f a))).sum := by
  simp only [(counts_tally _).count, List.count_flatMap, Function.comp_def]

/-! ## Merging -/

namespace Report

variable {r : Report}

theorem absorb_assoc (r s t : Report) : (r.absorb s).absorb t = r.absorb (s.absorb t) := by
  simp only [absorb, List.append_assoc, Int.max_assoc]

/-- A report with nothing in it adds nothing. -/
theorem absorb_blank (h : 0 ≤ r.passes) (name : Option String) : r.absorb { name } = r := by
  simp only [absorb, List.append_nil, Int.max_eq_left h]

theorem foldl_absorb (r s : Report) (reports : List Report) :
    reports.foldl absorb (r.absorb s) = r.absorb (reports.foldl absorb s) :=
  haveI : Std.Associative absorb := ⟨absorb_assoc⟩
  List.foldl_assoc

theorem passes_foldl_absorb (h : 0 ≤ r.passes) (reports : List Report) :
    0 ≤ (reports.foldl absorb r).passes := by
  induction reports generalizing r with
  | nil => exact h
  | cons s reports ih => exact ih (Int.le_trans h (Int.le_max_left _ _))

/-- What is merged once more keeps everything but its name. -/
theorem merge_merge (reports : List Report) (name name' : Option String) :
    merge [merge reports name'] name = merge reports name := by
  calc merge [merge reports name'] name
      = absorb { name } (merge reports name') := rfl
    _ = reports.foldl absorb (absorb { name } { name := name' }) := (foldl_absorb _ _ _).symm
    _ = merge reports name := by rw [absorb_blank (Int.le_refl 0)]; rfl

/-- Merging two lists is merging the first one and taking over what the second one gives. -/
theorem merge_append (A B : List Report) (name name' : Option String) :
    merge (A ++ B) name = (merge A name).absorb (merge B name') := by
  have hpasses : 0 ≤ (merge A name).passes := passes_foldl_absorb (Int.le_refl 0) A
  calc merge (A ++ B) name
      = B.foldl absorb (merge A name) := List.foldl_append
    _ = B.foldl absorb ((merge A name).absorb { name := name' }) := by rw [absorb_blank hpasses]
    _ = (merge A name).absorb (merge B name') := foldl_absorb _ _ _

theorem records_foldl_absorb (r : Report) (reports : List Report) :
    (reports.foldl absorb r).records = r.records ++ reports.flatMap (·.records) := by
  induction reports generalizing r with
  | nil => rw [List.flatMap_nil, List.append_nil]; rfl
  | cons s reports ih => rw [List.foldl_cons, ih, List.flatMap_cons, absorb, List.append_assoc]

theorem refusals_foldl_absorb (r : Report) (reports : List Report) :
    (reports.foldl absorb r).refusals = r.refusals ++ reports.flatMap (·.refusals) := by
  induction reports generalizing r with
  | nil => rw [List.flatMap_nil, List.append_nil]; rfl
  | cons s reports ih => rw [List.foldl_cons, ih, List.flatMap_cons, absorb, List.append_assoc]

theorem records_merge (reports : List Report) (name : Option String) :
    (merge reports name).records = reports.flatMap (·.records) :=
  records_foldl_absorb { name } reports

theorem refusals_merge (reports : List Report) (name : Option String) :
    (merge reports name).refusals = reports.flatMap (·.refusals) :=
  refusals_foldl_absorb { name } reports

theorem countByKind_counts (r : Report) : Counts (r.records.map (·.kind)) r.countByKind :=
  counts_tally _

theorem countByTrigger_counts (r : Report) :
    Counts (r.records.map (·.trigger)) r.countByTrigger :=
  counts_tally _

theorem countOf_merge_kind (reports : List Report) (name : Option String) (key : String) :
    countOf key (merge reports name).countByKind =
      (reports.map fun r => countOf key r.countByKind).sum := by
  rw [countByKind, records_merge, List.map_flatMap]
  exact countOf_tally_flatMap (fun r : Report => r.records.map (·.kind)) reports key

theorem countOf_merge_trigger (reports : List Report) (name : Option String) (key : String) :
    countOf key (merge reports name).countByTrigger =
      (reports.map fun r => countOf key r.countByTrigger).sum := by
  rw [countByTrigger, records_merge, List.map_flatMap]
  exact countOf_tally_flatMap (fun r : Report => r.records.map (·.trigger)) reports key

/-- **Merging in parts is merging at once, and counting adds up.** Two lists of reports may be
merged each for itself before what they give is merged, and whatever names the parts get, the result
is that of merging all reports at once: their records and their refusals in order. A merged report
has as many records of a kind, and of a trigger, as its reports have together. The counts of a
report stand by increasing key, are positive, and add up to the number of its records. -/
theorem merge_in_parts (A B : List Report) (name nameA nameB : Option String) :
    merge [merge A nameA, merge B nameB] name = merge (A ++ B) name ∧
    (merge (A ++ B) name).records = A.flatMap (·.records) ++ B.flatMap (·.records) ∧
    (merge (A ++ B) name).refusals = A.flatMap (·.refusals) ++ B.flatMap (·.refusals) ∧
    (∀ reports key,
      countOf key (merge reports name).countByKind =
        (reports.map fun r => countOf key r.countByKind).sum ∧
      countOf key (merge reports name).countByTrigger =
        (reports.map fun r => countOf key r.countByTrigger).sum) ∧
    ∀ r : Report,
      (∀ key, countOf key r.countByKind = (r.records.map (·.kind)).count key ∧
        countOf key r.countByTrigger = (r.records.map (·.trigger)).count key) ∧
      Breakdown r.total r.countByKind ∧ Breakdown r.total r.countByTrigger := by
  refine ⟨?_, ?_, ?_, fun reports key => ⟨?_, ?_⟩, fun r => ⟨fun key => ⟨?_, ?_⟩, ?_, ?_⟩⟩
  · calc merge [merge A nameA, merge B nameB] name
        = (merge [merge A nameA] name).absorb (merge B nameB) := rfl
      _ = (merge A name).absorb (merge B nameB) := by rw [merge_merge]
      _ = merge (A ++ B) name := (merge_append A B name nameB).symm
  · rw [records_merge, List.flatMap_append]
  · rw [refusals_merge, List.flatMap_append]
  · exact countOf_merge_kind reports name key
  · exact countOf_merge_trigger reports name key
  · exact r.countByKind_counts.count key
  · exact r.countByTrigger_counts.count key
  · rw [total, ← List.length_map (·.kind)]
    exact r.countByKind_counts.toBreakdown
  · rw [total, ← List.length_map (·.trigger)]
    exact r.countByTrigger_counts.toBreakdown

end Report
end CondUnfold
