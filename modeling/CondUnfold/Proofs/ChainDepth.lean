import CondUnfold.Proofs.Printable
import Mathlib.Order.Bounds.Image

/-!
# The depth of a chain

The depth of a chain is the number of guards on the longest way from the root to a leaf on which
every guard tests the base. While it is computed, `-1` stands for a branch without such a way, and the
guards that were passed are counted from above. Since no count is below zero, the larger of two
branches is never the one without a way beside one that has one (`IsDepth.union`).

Where each guard of the spine has a single action, the ways are beginnings of the spine
(`DecisionTree.LeafPath.prefix_spine`), so that a chain of depth `d` begins with `d` guards that test
the base (`chainDepth_testsBase`).
-/

namespace CondUnfold

open Except

/-! ## Ways to the leaves -/

namespace DecisionTree

/-- The branches that are there. -/
def branches : DecisionTree → List DecisionTree
  | .leaf _ => []
  | .onYes _ t | .onNo _ t => [t]
  | .fork _ y n => [y, n]

/-- `t.LeafPath guards` says that `guards` are met one after another on a way from the root of `t` to
a leaf. -/
inductive LeafPath : DecisionTree → List (Option Expr) → Prop where
  | leaf (action : Option Expr) : LeafPath (.leaf action) []
  | branch {t part : DecisionTree} {rest : List (Option Expr)} : part ∈ t.branches →
    LeafPath part rest → LeafPath t (t.condition :: rest)

/-- The lengths of the ways to a leaf on which every guard has the property. -/
def pathLengths (P : Option Expr → Prop) (t : DecisionTree) : Set Nat :=
  {k | ∃ guards, t.LeafPath guards ∧ (∀ g ∈ guards, P g) ∧ guards.length = k}

variable {P : Option Expr → Prop} {t y n : DecisionTree} {guard : Option Expr}
  {guards : List (Option Expr)}

theorem leafPath_leaf {action : Option Expr} : (leaf action).LeafPath guards ↔ guards = [] := by
  constructor
  · intro h
    cases h with
    | leaf => rfl
    | branch hpart => cases hpart
  · intro h
    exact h ▸ .leaf action

theorem pathLengths_leaf (action : Option Expr) : pathLengths P (leaf action) = {0} := by
  ext k
  simp [pathLengths, leafPath_leaf, eq_comm]

theorem pathLengths_guard (ht : t.isLeaf = false) (hP : P t.condition) :
    t.pathLengths P = Nat.succ '' {k | ∃ part ∈ t.branches, k ∈ part.pathLengths P} := by
  ext k
  constructor
  · rintro ⟨guards, hpath, hall, rfl⟩
    cases hpath with
    | leaf action => cases ht
    | @branch _ part rest hpart hpath =>
      exact ⟨rest.length, ⟨part, hpart, rest, hpath, (List.forall_mem_cons.mp hall).2, rfl⟩, rfl⟩
  · rintro ⟨_, ⟨part, hpart, rest, hpath, hall, rfl⟩, rfl⟩
    exact ⟨t.condition :: rest, .branch hpart hpath, List.forall_mem_cons.mpr ⟨hP, hall⟩, rfl⟩

theorem pathLengths_untested (ht : t.isLeaf = false) (hP : ¬ P t.condition) :
    t.pathLengths P = ∅ := by
  apply Set.eq_empty_of_forall_notMem
  rintro k ⟨guards, hpath, hall, _⟩
  cases hpath with
  | leaf action => cases ht
  | branch => exact hP (hall t.condition List.mem_cons_self)

/-- With single actions behind the guards of the spine, a way follows the spine and may leave it only
for one of these actions. -/
theorem LeafPath.prefix_spine (h : t.LeafPath guards) (hsingle : t.SingleActions) :
    guards <+: t.spine := by
  induction h with
  | leaf action => exact List.nil_prefix
  | @branch t part rest hpart hpath ih =>
    cases t with
    | leaf action => cases hpart
    | onYes guard y =>
      cases List.mem_singleton.mp hpart
      cases part with
      | leaf action => rw [leafPath_leaf.mp hpath]; exact List.prefix_rfl
      | onYes | onNo | fork => cases hsingle
    | onNo guard n =>
      cases List.mem_singleton.mp hpart
      exact (List.prefix_cons_inj guard).mpr (ih hsingle)
    | fork guard y n =>
      obtain rfl | rfl : part = y ∨ part = n := by simpa [branches] using hpart
      · cases part with
        | leaf action => rw [leafPath_leaf.mp hpath]; exact List.prefix_append [guard] n.spine
        | onYes | onNo | fork => cases hsingle.1
      · exact (List.prefix_cons_inj guard).mpr (ih hsingle.2)

end DecisionTree

/-- `d` is `count` and the greatest of the lengths, or `-1` if there is none. -/
def IsDepth (lengths : Set Nat) (count d : Int) : Prop :=
  lengths = ∅ ∧ d = -1 ∨ ∃ k, IsGreatest lengths k ∧ d = count + k

namespace IsDepth

variable {lengths lengths' : Set Nat} {count d d' : Int}

theorem succ (h : IsDepth lengths (count + 1) d) : IsDepth (Nat.succ '' lengths) count d := by
  obtain ⟨rfl, rfl⟩ | ⟨k, hk, rfl⟩ := h
  · exact .inl ⟨Set.image_empty _, rfl⟩
  · have hmono : Monotone Nat.succ := fun _ _ => Nat.succ_le_succ
    exact .inr ⟨k.succ, hmono.map_isGreatest hk, by omega⟩

theorem union (hcount : 0 ≤ count) (h : IsDepth lengths count d) (h' : IsDepth lengths' count d') :
    IsDepth (lengths ∪ lengths') count (max d d') := by
  obtain ⟨rfl, rfl⟩ | ⟨k, hk, rfl⟩ := h
  · rw [Set.empty_union]
    obtain ⟨rfl, rfl⟩ | ⟨k', hk', rfl⟩ := h'
    · exact .inl ⟨rfl, rfl⟩
    · exact .inr ⟨k', hk', by omega⟩
  · obtain ⟨rfl, rfl⟩ | ⟨k', hk', rfl⟩ := h'
    · rw [Set.union_empty]
      exact .inr ⟨k, hk, by omega⟩
    · exact .inr ⟨max k k', hk.union hk', by omega⟩

end IsDepth

/-- Where a guard is not tested, the chain ends with `-1`; otherwise it goes on behind the guard. -/
theorem chainDepth_guard {base : Expr} {g : Option Expr} {rest : Except Error Int} {d : Int}
    (h : (do if ← testsBase base g then rest else return -1) = .ok d) :
    testsBase base g = .ok false ∧ d = -1 ∨ testsBase base g = .ok true ∧ rest = .ok d := by
  obtain ⟨b, hb, h⟩ := bind_eq_ok.mp h
  cases b with
  | false => cases h; exact .inl ⟨hb, rfl⟩
  | true => exact .inr ⟨hb, h⟩

theorem chainDepth_isDepth {base : Expr} {P : Option Expr → Prop}
    (hP : ∀ g b, testsBase base g = .ok b → (b = true ↔ P g)) {t : DecisionTree} {count d : Int}
    (hcount : 0 ≤ count) (h : chainDepth base t count = .ok d) :
    IsDepth (t.pathLengths P) count d := by
  induction t generalizing count d with
  | leaf action =>
    cases h
    rw [DecisionTree.pathLengths_leaf]
    exact .inr ⟨0, isGreatest_singleton, (Int.add_zero count).symm⟩
  | onYes guard t ih | onNo guard t ih =>
    obtain ⟨htest, hd⟩ | ⟨htest, h⟩ := chainDepth_guard h
    · have huntested : ¬ P guard := fun hg => Bool.false_ne_true ((hP _ _ htest).mpr hg)
      exact .inl ⟨DecisionTree.pathLengths_untested rfl huntested, hd⟩
    · rw [DecisionTree.pathLengths_guard rfl ((hP _ _ htest).mp rfl)]
      simpa [DecisionTree.branches] using (ih (by omega) h).succ
  | fork guard y n ihy ihn =>
    obtain ⟨htest, hd⟩ | ⟨htest, h⟩ := chainDepth_guard h
    · have huntested : ¬ P guard := fun hg => Bool.false_ne_true ((hP _ _ htest).mpr hg)
      exact .inl ⟨DecisionTree.pathLengths_untested rfl huntested, hd⟩
    · simp only [bind_eq_ok, pure_eq_ok] at h
      obtain ⟨dy, hdy, dn, hdn, h⟩ := h
      cases h
      rw [DecisionTree.pathLengths_guard rfl ((hP _ _ htest).mp rfl)]
      have := ((ihy (by omega) hdy).union (by omega) (ihn (by omega) hdn)).succ
      simpa [DecisionTree.branches, Set.ofPred_or] using this

/-- The guards on a way whose length is the depth are those with which the spine begins. -/
theorem chainDepth_spine {base : Expr} {t : DecisionTree} {count d : Int}
    (hsingle : t.SingleActions) (hcount : 0 ≤ count) (h : chainDepth base t count = .ok d) :
    d = -1 ∨ ∃ guards, guards <+: t.spine ∧ d = count + guards.length ∧
      ∀ g ∈ guards, testsBase base g = .ok true := by
  have hP : ∀ g b, testsBase base g = .ok b → (b = true ↔ testsBase base g = .ok true) := by
    intro g b hb
    rw [hb]
    exact ⟨congrArg _, Except.ok.inj⟩
  obtain ⟨_, hd⟩ | ⟨k, ⟨⟨guards, hpath, htests, rfl⟩, _⟩, hd⟩ := chainDepth_isDepth hP hcount h
  · exact .inl hd
  · exact .inr ⟨guards, hpath.prefix_spine hsingle, hd, htests⟩

/-- **A chain of depth `d` begins with `d` guards that test the base**, provided that nothing behind
a guard that holds is a chain of its own. -/
theorem chainDepth_testsBase {base : Expr} {t : DecisionTree} {count d : Int} {g : Option Expr}
    (hsingle : t.SingleActions) (hcount : 0 ≤ count) (h : chainDepth base t count = .ok d)
    (hg : g ∈ t.spine.take (d - count).toNat) : testsBase base g = .ok true := by
  obtain rfl | ⟨guards, hprefix, rfl, htests⟩ := chainDepth_spine hsingle hcount h
  · rw [show (-1 - count).toNat = 0 by omega] at hg
    cases hg
  · rw [show (count + guards.length - count).toNat = guards.length by omega,
      ← List.prefix_iff_eq_take.mp hprefix] at hg
    exact htests g hg

theorem chainDepth_le_spine {base : Expr} {t : DecisionTree} {count d : Int}
    (hsingle : t.SingleActions) (hcount : 0 ≤ count) (h : chainDepth base t count = .ok d) :
    d ≤ count + t.spine.length := by
  obtain rfl | ⟨guards, hprefix, rfl, _⟩ := chainDepth_spine hsingle hcount h
  · omega
  · have := hprefix.length_le
    omega

theorem chainDepth_isOk {base : Expr} (hbase : base.isPrintable = true) {t : DecisionTree}
    (ht : ∀ e, some e ∈ t.guards → e.isPrintable = true) (count : Int) :
    ∃ d, chainDepth base t count = .ok d := by
  induction t generalizing count with
  | leaf a => exact ⟨count, rfl⟩
  | onYes guard t ih | onNo guard t ih =>
    obtain ⟨b, hb⟩ := testsBase_isOk hbase fun e he => ht e (he ▸ List.mem_cons_self)
    simp only [chainDepth, hb, bind_ok_eq]
    cases b with
    | false => exact ⟨-1, rfl⟩
    | true => exact ih (fun e he => ht e (List.mem_cons_of_mem guard he)) (count + 1)
  | fork guard y n ihy ihn =>
    obtain ⟨b, hb⟩ := testsBase_isOk hbase fun e he => ht e (he ▸ List.mem_cons_self)
    obtain ⟨dy, hdy⟩ := ihy (fun e he => ht e (.tail _ (List.mem_append_left _ he))) (count + 1)
    obtain ⟨dn, hdn⟩ := ihn (fun e he => ht e (.tail _ (List.mem_append_right _ he))) (count + 1)
    simp only [chainDepth, hb, hdy, hdn, bind_ok_eq]
    cases b with
    | false => exact ⟨-1, rfl⟩
    | true => exact ⟨max dy dn, rfl⟩

/-- **The depth of a chain is the greatest number of guards on a way to a leaf on which every guard
tests the base**, added to the count from which it starts; it is `-1` if there is no such way. There
is a depth whenever the base and the guards can be written. -/
theorem chainDepth_longest (base : Expr) (t : DecisionTree) {count : Int} (hcount : 0 ≤ count) :
    (∀ d, chainDepth base t count = .ok d →
      t.pathLengths base.TestedBy = ∅ ∧ d = -1 ∨
        ∃ k, IsGreatest (t.pathLengths base.TestedBy) k ∧ d = count + k) ∧
    (base.isPrintable = true → (∀ e, some e ∈ t.guards → e.isPrintable = true) →
      ∃ d, chainDepth base t count = .ok d) :=
  ⟨fun _ h => chainDepth_isDepth (fun _ _ => testsBase_eq_ok) hcount h,
    fun hbase ht => chainDepth_isOk hbase ht count⟩

namespace MaskedBranch

open Sample

/-- `kind === 1 ? ready && f() : kind === 2 || (kind === 3 ? g() : h())` -/
def tree : DecisionTree :=
  .fork (isKind "1") (.onYes (some (.name "ready")) (.leaf (some (.name "f"))))
    (.onNo (isKind "2") (.fork (isKind "3") (.leaf (some (.name "g"))) (.leaf (some (.name "h")))))

/-- The branch that asks for `ready` has no way on which `kind` is tested throughout. Beside the other
branch it does not count. -/
theorem chainDepth_masks_branch :
    (∀ e, some e ∈ tree.guards → e.isPrintable = true) ∧ chainDepth kind tree 4 = .ok 7 ∧
      IsGreatest (tree.pathLengths kind.TestedBy) 3 := by
  have hguards : ∀ e, some e ∈ tree.guards → e.isPrintable = true := by
    simp [tree, DecisionTree.guards, isKind, kind, Expr.isPrintable]
  have hready : testsBase kind (some (.name "ready")) = .ok false := rfl
  have hdepth : chainDepth kind tree 4 = .ok 7 := by
    simp only [tree, chainDepth, testsBase_isKind, hready, bind_ok_eq]
    rfl
  obtain ⟨hexact, hisOk⟩ := chainDepth_longest kind tree (Int.natCast_nonneg 4)
  obtain ⟨d, hd⟩ := hisOk rfl hguards
  cases hdepth.symm.trans hd
  obtain ⟨_, h⟩ | ⟨k, hk, h⟩ := hexact 7 hd
  · omega
  · obtain rfl : k = 3 := by omega
    exact ⟨hguards, hdepth, hk⟩

end MaskedBranch
end CondUnfold
