import CondUnfold.Proofs.IfChain

/-!
# Refused chains are reported once

What a maker of switches answers for a tree hangs on its settings and on the tree alone, and it
changes its records only if the answer is a refusal (`SwitchMaker.trySwitch_answers`). So the chains
that are refused on the way through a tree can be listed beforehand (`DecisionTree.refusedChains`),
and the maker takes them one after another (`DecisionTree.ifChain_steady`). The list has a tree
before the trees inside it, so that the outermost chains are the ones on record
(`SwitchMaker.Recorded`).
-/

namespace CondUnfold

open Except

/-! ## Places -/

namespace Place

variable {p q r place : Place} {s s' : Side}

theorem within_iff : p.within q = true ↔ p.root = q.root ∧ q.path <+: p.path := by
  rw [within, Bool.and_eq_true, beq_iff_eq, List.isPrefixOf_iff_prefix]

theorem within_refl (p : Place) : p.within p = true :=
  within_iff.mpr ⟨rfl, List.prefix_refl _⟩

theorem within_trans (hpq : p.within q = true) (hqr : q.within r = true) : p.within r = true := by
  rw [within_iff] at *
  exact ⟨hpq.1.trans hqr.1, hqr.2.trans hpq.2⟩

theorem within_antisymm (hpq : p.within q = true) (hqp : q.within p = true) : p = q := by
  rw [within_iff] at *
  cases p
  cases q
  simp only [mk.injEq]
  exact ⟨hpq.1, hqp.2.eq_of_length (Nat.le_antisymm hqp.2.length_le hpq.2.length_le)⟩

theorem step_within (place : Place) (s : Side) : (place.step s).within place = true :=
  within_iff.mpr ⟨rfl, List.prefix_append _ _⟩

/-- A place is not inside of what is below it. -/
theorem not_within_below (h : p.within (place.step s) = true) : place.within p = false := by
  rw [Bool.eq_false_iff]
  intro hplace
  have hlength := (within_iff.mp (within_trans hplace h)).2.length_le
  rw [step, List.length_append, List.length_singleton] at hlength
  omega

/-- What is below one branch is not inside of what is below the other one. -/
theorem not_within_other (hs : s ≠ s') (hp : p.within (place.step s) = true)
    (hq : q.within (place.step s') = true) : p.within q = false := by
  rw [Bool.eq_false_iff]
  intro hpq
  have hp := (within_iff.mp hp).2
  have hq := (within_iff.mp (within_trans hpq hq)).2
  have heq : place.path ++ [s] = place.path ++ [s'] :=
    (List.prefix_of_prefix_length_le hp hq (by simp [step])).eq_of_length (by simp [step])
  exact hs (by simpa using heq)

end Place

/-! ## Answers -/

/-- The base and the reason, where an event tells of a refusal. -/
def Event.refusal? : Event → Option (String × String)
  | .chainRefused base reason | .tailRefused base reason => some (base, reason)
  | _ => none

namespace SwitchMaker

/-- What the log tells about refusals, of whole chains and of their parts. -/
def told (m : SwitchMaker) : List (String × String) := m.log.filterMap Event.refusal?

/-- The makers have the same records of refusals. -/
structure SameRecords (m n : SwitchMaker) : Prop where
  refused : n.refused = m.refused
  refusals : n.refusals = m.refusals
  told : n.told = m.told

/-- Meet a chain that is refused. -/
def meet (m : SwitchMaker) (x : Place × Refusal) : SwitchMaker := m.refuse x.1 x.2.base x.2.reason

/-- The chain lies inside of one that is on record for the same base. -/
def Covers (m : SwitchMaker) (x : Place × Refusal) : Prop :=
  ∃ r ∈ m.refused, r.2 = x.2.base ∧ x.1.within r.1 = true

theorem covers_iff {m : SwitchMaker} {x : Place × Refusal} :
    m.Covers x ↔ (m.refused.any fun r => r.2 == x.2.base && x.1.within r.1) = true := by
  simp [Covers]

variable {m n : SwitchMaker} {x : Place × Refusal}

/-- **Meeting a chain once more changes no record**, and meeting a new one puts it on record. -/
theorem meet_cases (m : SwitchMaker) (x : Place × Refusal) :
    (m.meet x).told = m.told ++ [(x.2.base, x.2.reason.text)] ∧
    (m.Covers x ∧ (m.meet x).refused = m.refused ∧ (m.meet x).refusals = m.refusals ∨
      ¬ m.Covers x ∧ (m.meet x).refused = m.refused ++ [(x.1, x.2.base)] ∧
        (m.meet x).refusals = m.refusals ++ [x.2]) := by
  unfold meet refuse
  split
  next h => exact ⟨List.filterMap_append, .inl ⟨covers_iff.mpr h, rfl, rfl⟩⟩
  next h => exact ⟨List.filterMap_append, .inr ⟨mt covers_iff.mp h, rfl, rfl⟩⟩

namespace SameRecords

theorem refl (m : SwitchMaker) : m.SameRecords m := ⟨rfl, rfl, rfl⟩

theorem trans {m₁ m₂ m₃ : SwitchMaker} (h : m₁.SameRecords m₂) (h' : m₂.SameRecords m₃) :
    m₁.SameRecords m₃ :=
  ⟨h'.refused.trans h.refused, h'.refusals.trans h.refusals, h'.told.trans h.told⟩

theorem covers_iff (h : m.SameRecords n) : n.Covers x ↔ m.Covers x := by
  rw [Covers, Covers, h.refused]

theorem meet (h : m.SameRecords n) (x : Place × Refusal) : (m.meet x).SameRecords (n.meet x) := by
  obtain ⟨htold, hm⟩ := m.meet_cases x
  obtain ⟨htold', hn⟩ := n.meet_cases x
  rw [h.covers_iff] at hn
  rcases hm with ⟨hc, hrefused, hrefusals⟩ | ⟨hc, hrefused, hrefusals⟩ <;>
    rcases hn with ⟨hc', hrefused', hrefusals'⟩ | ⟨hc', hrefused', hrefusals'⟩
  · exact ⟨by rw [hrefused, hrefused', h.refused], by rw [hrefusals, hrefusals', h.refusals],
      by rw [htold, htold', h.told]⟩
  · exact absurd hc hc'
  · exact absurd hc' hc
  · exact ⟨by rw [hrefused, hrefused', h.refused], by rw [hrefusals, hrefusals', h.refusals],
      by rw [htold, htold', h.told]⟩

theorem foldl_meet (h : m.SameRecords n) (met : List (Place × Refusal)) :
    (met.foldl SwitchMaker.meet m).SameRecords (met.foldl SwitchMaker.meet n) := by
  induction met generalizing m n with
  | nil => exact h
  | cons x met ih => exact ih (h.meet x)

end SameRecords

/-- The maker comes to be `m'` by meeting chains, the first one first. -/
structure Meets (m : SwitchMaker) (met : List (Place × Refusal)) (m' : SwitchMaker) : Prop where
  agrees : m.Agrees m'
  records : (met.foldl meet m).SameRecords m'

theorem Meets.refl (m : SwitchMaker) : m.Meets [] m := ⟨⟨rfl, rfl⟩, .refl m⟩

theorem Meets.append {met met' : List (Place × Refusal)} {m₁ m₂ m₃ : SwitchMaker}
    (h : m₁.Meets met m₂) (h' : m₂.Meets met' m₃) : m₁.Meets (met ++ met') m₃ := by
  refine ⟨⟨h'.agrees.1.trans h.agrees.1, h'.agrees.2.trans h.agrees.2⟩, ?_⟩
  rw [List.foldl_append]
  exact (h.records.foldl_meet met').trans h'.records

/-- With an event that tells of no refusal, no chain is met. -/
theorem meets_log (m : SwitchMaker) {e : Event} (he : e.refusal? = none) :
    m.Meets [] { m with log := m.log ++ [e] } := by
  refine ⟨⟨rfl, rfl⟩, rfl, rfl, ?_⟩
  rw [told, told, List.filterMap_append, List.filterMap_cons_none he, List.filterMap_nil,
    List.append_nil]
  rfl

/-- The answer for a tree, whichever maker with the settings is asked and wherever the tree stands:
a switch or none, and the refusal that goes on record if there is one. -/
def Answers (threshold : Int) (strict : Bool) (t : DecisionTree)
    (found : Option (Expr × List (Arm Stmt))) (refusal : Option Refusal) : Prop :=
  ∀ (m : SwitchMaker) (place : Place), m.threshold = threshold → m.strict = strict →
    ∃ m', m.trySwitch place t = .ok (found, m') ∧ m.Meets (refusal.map (place, ·)).toList m'

end SwitchMaker

/-- The chain of the tree is long enough for a switch on a base with the text `f.base`, and its arms
are refused for the reason that `f` gives. -/
structure IsRefused (threshold : Int) (strict : Bool) (t : DecisionTree) (f : Refusal) : Prop where
  notLeaf : t.isLeaf = false
  found : ∃ bases base, guardBases t.condition = .ok bases ∧
    findBase threshold t bases = .ok (some base) ∧ base.render = .ok f.base ∧
    collectArms strict base t = .error (.refused f.reason)

namespace SwitchMaker

theorem trySwitch_of_isRefused {m : SwitchMaker} {t : DecisionTree} {f : Refusal} (place : Place)
    (h : IsRefused m.threshold m.strict t f) :
    m.trySwitch place t = .ok (none, m.meet (place, f)) := by
  obtain ⟨bases, base, hbases, hfind, htext, hcollect⟩ := h.found
  cases bases with
  | nil => cases hfind
  | cons first others =>
    simp only [trySwitch, h.notLeaf, Bool.false_eq_true, if_false, hbases, bind_ok_eq, hfind,
      hcollect, htext, pure_eq_ok]
    rfl

/-- **What a maker answers hangs on its settings and on the tree alone.** -/
theorem trySwitch_answers {m m' : SwitchMaker} {place : Place} {t : DecisionTree}
    {found : Option (Expr × List (Arm Stmt))} (h : m.trySwitch place t = .ok (found, m')) :
    ∃ refusal, Answers m.threshold m.strict t found refusal ∧
      ∀ f, refusal = some f → IsRefused m.threshold m.strict t f := by
  unfold trySwitch at h
  split at h
  next hleaf =>
    cases h
    refine ⟨none, ?_, nofun⟩
    intro n place _ _
    exact ⟨n, by simp only [trySwitch, hleaf, if_true, pure_eq_ok], .refl n⟩
  next hleaf =>
    obtain ⟨bases, hbases, h⟩ := bind_eq_ok.mp h
    cases bases with
    | nil =>
      cases h
      refine ⟨none, ?_, nofun⟩
      intro n place _ _
      exact ⟨n, by simp only [trySwitch, hleaf, if_false, hbases, bind_ok_eq, pure_eq_ok,
        Bool.false_eq_true], .refl n⟩
    | cons first others =>
      obtain ⟨base?, hfind, h⟩ := bind_eq_ok.mp h
      cases base? with
      | none =>
        obtain ⟨text, htext, h⟩ := bind_eq_ok.mp h
        cases h
        refine ⟨none, ?_, nofun⟩
        intro n place hthreshold hstrict
        refine ⟨_, ?_, n.meets_log (e := .chainTooShort text n.threshold) rfl⟩
        simp only [trySwitch, hleaf, Bool.false_eq_true, if_false, hbases, bind_ok_eq, hthreshold,
          hfind, htext, pure_eq_ok]
      | some base =>
        cases harms : collectArms m.strict base t with
        | ok arms =>
          simp only [harms, bind_eq_ok] at h
          obtain ⟨text, htext, h⟩ := h
          cases h
          refine ⟨none, ?_, nofun⟩
          intro n place hthreshold hstrict
          refine ⟨_, ?_, n.meets_log (e := .switchMade text arms.length) rfl⟩
          simp only [trySwitch, hleaf, Bool.false_eq_true, if_false, hbases, bind_ok_eq, hthreshold,
            hstrict, hfind, harms, htext, pure_eq_ok]
        | error stop =>
          cases stop with
          | failed e => simp only [harms] at h; cases h
          | refused reason =>
            simp only [harms, bind_eq_ok] at h
            obtain ⟨text, htext, h⟩ := h
            cases h
            have hrefused : IsRefused m.threshold m.strict t ⟨text, reason⟩ :=
              ⟨by simpa using hleaf, _, base, hbases, hfind, htext, harms⟩
            refine ⟨some ⟨text, reason⟩, ?_, by rintro _ ⟨⟩; exact hrefused⟩
            intro n place hthreshold hstrict
            rw [← hthreshold, ← hstrict] at hrefused
            exact ⟨_, trySwitch_of_isRefused place hrefused, n.refuse_agrees _ _ _, .refl _⟩

end SwitchMaker

namespace DecisionTree

/-- Does the tree become a switch? -/
def hasSwitch (threshold : Int) (strict : Bool) (t : DecisionTree) : Bool :=
  (({ threshold, strict } : SwitchMaker).trySwitch {} t).toOption.any (·.1.isSome)

/-- The refusal of the tree, if a maker that has no records refuses it. -/
def refusal? (threshold : Int) (strict : Bool) (t : DecisionTree) : Option Refusal :=
  (({ threshold, strict } : SwitchMaker).trySwitch {} t).toOption.bind (·.2.refusals.head?)

theorem answers_eq {threshold : Int} {strict : Bool} {t : DecisionTree}
    {found : Option (Expr × List (Arm Stmt))} {refusal : Option Refusal}
    (h : SwitchMaker.Answers threshold strict t found refusal) :
    t.hasSwitch threshold strict = found.isSome ∧ t.refusal? threshold strict = refusal := by
  obtain ⟨m', htry, hmeets⟩ := h { threshold, strict } {} rfl rfl
  have hrefusals : m'.refusals = refusal.toList := by
    rw [hmeets.records.refusals]
    cases refusal <;> rfl
  constructor
  · rw [hasSwitch, htry]
    rfl
  · rw [refusal?, htry]
    change m'.refusals.head? = refusal
    rw [hrefusals]
    cases refusal <;> rfl

theorem refusal?_eq_some {threshold : Int} {strict : Bool} {t : DecisionTree} {f : Refusal} :
    t.refusal? threshold strict = some f ↔ IsRefused threshold strict t f := by
  constructor
  · intro h
    cases htry : ({ threshold, strict } : SwitchMaker).trySwitch {} t with
    | error e => rw [refusal?, htry] at h; cases h
    | ok answer =>
      obtain ⟨refusal, hanswers, hrefused⟩ := SwitchMaker.trySwitch_answers htry
      exact hrefused f ((answers_eq hanswers).2.symm.trans h)
  · intro h
    have htry := SwitchMaker.trySwitch_of_isRefused (m := { threshold, strict }) {} h
    rw [refusal?, htry]
    rfl

/-- The chains that are refused while statements are made of a tree, in the order in which they are
met. The tree itself comes first, then the branch for a guard that fails, then the other one.
Nothing is looked at inside of a tree that becomes a switch. -/
def refusedChains (threshold : Int) (strict : Bool) :
    DecisionTree → Place → List (Place × Refusal)
  | .leaf _, _ => []
  | .onYes guard y, place =>
    met place (.onYes guard y) (y.refusedChains threshold strict (place.step .yes))
  | .onNo guard n, place =>
    met place (.onNo guard n) (n.refusedChains threshold strict (place.step .no))
  | .fork guard y n, place =>
    met place (.fork guard y n) (n.refusedChains threshold strict (place.step .no) ++
      y.refusedChains threshold strict (place.step .yes))
where
  /-- The chains of a tree from those below it. -/
  met (place : Place) (t : DecisionTree) (below : List (Place × Refusal)) :
      List (Place × Refusal) :=
    if t.hasSwitch threshold strict then []
    else ((t.refusal? threshold strict).map (place, ·)).toList ++ below

variable {threshold : Int} {strict : Bool} {t : DecisionTree}

theorem hasSwitch_of_isRefused {f : Refusal} (h : IsRefused threshold strict t f) :
    t.hasSwitch threshold strict = false := by
  have htry := SwitchMaker.trySwitch_of_isRefused (m := { threshold, strict }) {} h
  rw [hasSwitch, htry]
  rfl

/-- Making statements gives `body` and meets the chains `met`, whichever maker with the settings is
asked and wherever the tree stands. -/
def Steady (threshold : Int) (strict : Bool)
    (run : Place → Option SwitchMaker → Except Error (List Stmt × Option SwitchMaker))
    (met : Place → List (Place × Refusal)) (body : List Stmt) : Prop :=
  ∀ (m : SwitchMaker) (place : Place), m.threshold = threshold → m.strict = strict →
    ∃ m', run place (some m) = .ok (body, some m') ∧ m.Meets (met place) m'

/-- A tree is asked for first, and the chains below it are met only if it does not become a
switch. -/
theorem steady_of_ifStmts (ht : t.Guarded (·.isPrintable = true))
    {below : Place → List (Place × Refusal)}
    (hstmts : ∃ body, Steady threshold strict t.ifStmts below body) :
    ∃ body, Steady threshold strict t.ifChain
      (fun place => refusedChains.met threshold strict place t (below place)) body := by
  obtain ⟨⟨found, _⟩, htry⟩ :=
    SwitchMaker.trySwitch_isOk { threshold, strict } {} ht
  obtain ⟨refusal, hanswers, hrefused⟩ := SwitchMaker.trySwitch_answers htry
  obtain ⟨hswitch, hrefusal⟩ := answers_eq hanswers
  have hnone (s : Expr × List (Arm Stmt)) (hs : found = some s) : refusal = none := by
    apply Option.eq_none_iff_forall_ne_some.mpr
    rintro f rfl
    rw [hasSwitch_of_isRefused (hrefused f rfl), hs] at hswitch
    cases hswitch
  simp only [refusedChains.met, hswitch, hrefusal]
  cases found with
  | some s =>
    refine ⟨[switchStmt s], ?_⟩
    intro m place hthreshold hstrict
    obtain ⟨m', htry, hmeets⟩ := hanswers m place hthreshold hstrict
    rw [hnone s rfl] at hmeets
    exact ⟨m', by simp only [ifChain_eq, switch?, htry, bind_ok_eq, pure_eq_ok, Option.map_some],
      hmeets⟩
  | none =>
    obtain ⟨body, hstmts⟩ := hstmts
    refine ⟨body, ?_⟩
    intro m place hthreshold hstrict
    obtain ⟨m₁, htry, hmeets⟩ := hanswers m place hthreshold hstrict
    obtain ⟨m', hbody, hmeets'⟩ := hstmts m₁ place (hmeets.agrees.1.trans hthreshold)
      (hmeets.agrees.2.trans hstrict)
    exact ⟨m', by simp only [ifChain_eq, switch?, htry, bind_ok_eq, pure_eq_ok, Option.map_none,
      hbody], hmeets.append hmeets'⟩

/-- **On its way through a tree a maker meets the chains that are refused, one after another.** What
it has on record has no influence on the statements. -/
theorem ifChain_steady (ht : t.Guarded (·.isPrintable = true)) :
    ∃ body, Steady threshold strict t.ifChain (t.refusedChains threshold strict) body := by
  induction t with
  | leaf action =>
    have hstmts : ∃ body, Steady threshold strict (leaf action).ifStmts (fun _ => []) body := by
      cases action with
      | none => exact ⟨[], fun m _ _ _ => ⟨m, rfl, .refl m⟩⟩
      | some e => exact ⟨[.action (some e)], fun m _ _ _ => ⟨m, rfl, .refl m⟩⟩
    exact steady_of_ifStmts ht hstmts
  | onYes guard y ih =>
    apply steady_of_ifStmts ht
    obtain ⟨yes, hyes⟩ := ih ht.2
    refine ⟨[.ifThen guard (.block yes)], ?_⟩
    intro m place hthreshold hstrict
    obtain ⟨m', hrun, hmeets⟩ := hyes m (place.step .yes) hthreshold hstrict
    exact ⟨m', by simp only [ifStmts, hrun, bind_ok_eq, pure_eq_ok], hmeets⟩
  | onNo guard n ih =>
    apply steady_of_ifStmts ht
    obtain ⟨no, hno⟩ := ih ht.2
    refine ⟨[.ifThen (guard.map Expr.negate) (.block no)], ?_⟩
    intro m place hthreshold hstrict
    obtain ⟨m', hrun, hmeets⟩ := hno m (place.step .no) hthreshold hstrict
    exact ⟨m', by simp only [ifStmts, hrun, bind_ok_eq, pure_eq_ok], hmeets⟩
  | fork guard y n ihy ihn =>
    apply steady_of_ifStmts ht
    obtain ⟨_, hy, hn⟩ := ht
    obtain ⟨yes, hyes⟩ := ihy hy
    obtain ⟨no, hno⟩ := ihn hn
    refine ⟨[attachElse guard yes no], ?_⟩
    intro m place hthreshold hstrict
    obtain ⟨m₁, hrun, hmeets⟩ := hno m (place.step .no) hthreshold hstrict
    obtain ⟨m₂, hrun', hmeets'⟩ := hyes m₁ (place.step .yes) (hmeets.agrees.1.trans hthreshold)
      (hmeets.agrees.2.trans hstrict)
    exact ⟨m₂, by simp only [ifStmts, hrun, hrun', bind_ok_eq, pure_eq_ok], hmeets.append hmeets'⟩

/-! ## The order of the refused chains -/

/-- Looking for a switch gets from the tree at one place to a part of it at another one: no tree on
the way there becomes a switch. -/
inductive Tried (threshold : Int) (strict : Bool) :
    DecisionTree → Place → DecisionTree → Place → Prop
  | here (t : DecisionTree) (place : Place) : Tried threshold strict t place t place
  | yes {t y part : DecisionTree} {place place' : Place} :
    t.hasSwitch threshold strict = false → t.yes? = some y →
    Tried threshold strict y (place.step .yes) part place' →
    Tried threshold strict t place part place'
  | no {t n part : DecisionTree} {place place' : Place} :
    t.hasSwitch threshold strict = false → t.no? = some n →
    Tried threshold strict n (place.step .no) part place' →
    Tried threshold strict t place part place'

/-- A chain that is refused while statements are made of the tree at a place. -/
def RefusedIn (threshold : Int) (strict : Bool) (t : DecisionTree) (place : Place)
    (x : Place × Refusal) : Prop :=
  ∃ part, Tried threshold strict t place part x.1 ∧ IsRefused threshold strict part x.2

variable {place place' : Place} {part : DecisionTree} {x : Place × Refusal}

theorem Tried.within (h : Tried threshold strict t place part place') :
    place'.within place = true := by
  induction h with
  | here t place => exact place.within_refl
  | yes _ _ _ ih | no _ _ _ ih => exact Place.within_trans ih (Place.step_within _ _)

/-- The chains refused in a tree are the tree itself and those refused in its branches. -/
theorem refusedIn_iff : RefusedIn threshold strict t place x ↔
    t.hasSwitch threshold strict = false ∧
      ((x.1 = place ∧ IsRefused threshold strict t x.2) ∨
        (∃ n, t.no? = some n ∧ RefusedIn threshold strict n (place.step .no) x) ∨
        ∃ y, t.yes? = some y ∧ RefusedIn threshold strict y (place.step .yes) x) := by
  constructor
  · rintro ⟨part, htried, hrefused⟩
    cases htried with
    | here => exact ⟨hasSwitch_of_isRefused hrefused, .inl ⟨rfl, hrefused⟩⟩
    | yes hswitch hyes h => exact ⟨hswitch, .inr (.inr ⟨_, hyes, part, h, hrefused⟩)⟩
    | no hswitch hno h => exact ⟨hswitch, .inr (.inl ⟨_, hno, part, h, hrefused⟩)⟩
  · rintro ⟨hswitch, ⟨hplace, hrefused⟩ | ⟨n, hno, part, h, hrefused⟩ |
      ⟨y, hyes, part, h, hrefused⟩⟩
    · exact ⟨t, hplace ▸ Tried.here t x.1, hrefused⟩
    · exact ⟨part, .no hswitch hno h, hrefused⟩
    · exact ⟨part, .yes hswitch hyes h, hrefused⟩

theorem mem_met {below : List (Place × Refusal)} :
    x ∈ refusedChains.met threshold strict place t below ↔
      t.hasSwitch threshold strict = false ∧
        ((x.1 = place ∧ IsRefused threshold strict t x.2) ∨ x ∈ below) := by
  unfold refusedChains.met
  cases hswitch : t.hasSwitch threshold strict with
  | true => simp
  | false =>
    obtain ⟨p, f⟩ := x
    simp only [Bool.false_eq_true, if_false, List.mem_append, Option.mem_toList,
      Option.map_eq_some_iff, Prod.mk.injEq, true_and, ← refusal?_eq_some]
    apply or_congr_left
    constructor
    · rintro ⟨_, hf, rfl, rfl⟩
      exact ⟨rfl, hf⟩
    · rintro ⟨rfl, hf⟩
      exact ⟨f, hf, rfl, rfl⟩

theorem mem_refusedChains : x ∈ t.refusedChains threshold strict place ↔
    RefusedIn threshold strict t place x := by
  induction t generalizing place with
  | leaf action =>
    rw [refusedIn_iff]
    constructor
    · nofun
    · rintro ⟨_, ⟨_, h⟩ | ⟨_, h, _⟩ | ⟨_, h, _⟩⟩
      · cases h.notLeaf
      · cases h
      · cases h
  | onYes guard y ih =>
    rw [refusedChains, mem_met, ih, refusedIn_iff (t := .onYes guard y)]
    simp [yes?, no?]
  | onNo guard n ih =>
    rw [refusedChains, mem_met, ih, refusedIn_iff (t := .onNo guard n)]
    simp [yes?, no?]
  | fork guard y n ihy ihn =>
    rw [refusedChains, mem_met, List.mem_append, ihy, ihn, refusedIn_iff (t := .fork guard y n)]
    simp [yes?, no?]

theorem within_of_mem_refusedChains (h : x ∈ t.refusedChains threshold strict place) :
    x.1.within place = true := by
  obtain ⟨part, htried, _⟩ := mem_refusedChains.mp h
  exact htried.within

theorem pairwise_met {below : List (Place × Refusal)}
    (hplace : ∀ x ∈ below, place.within x.1 = false)
    (hbelow : below.Pairwise fun a b => a.1.within b.1 = false) :
    (refusedChains.met threshold strict place t below).Pairwise
      fun a b => a.1.within b.1 = false := by
  unfold refusedChains.met
  split
  · exact .nil
  · cases t.refusal? threshold strict with
    | none => exact hbelow
    | some f => exact .cons hplace hbelow

/-- **A chain is met before the chains inside of it.** -/
theorem pairwise_refusedChains (t : DecisionTree) (place : Place) :
    (t.refusedChains threshold strict place).Pairwise fun a b => a.1.within b.1 = false := by
  induction t generalizing place with
  | leaf action => exact .nil
  | onYes guard part ih | onNo guard part ih =>
    apply pairwise_met _ (ih _)
    intro x hx
    exact Place.not_within_below (within_of_mem_refusedChains hx)
  | fork guard y n ihy ihn =>
    apply pairwise_met
    · intro x hx
      rcases List.mem_append.mp hx with hx | hx <;>
        exact Place.not_within_below (within_of_mem_refusedChains hx)
    · refine List.pairwise_append.mpr ⟨ihn (place.step .no), ihy (place.step .yes), ?_⟩
      intro a ha b hb
      have hsides : Side.no ≠ Side.yes := by decide
      exact Place.not_within_other hsides (within_of_mem_refusedChains ha)
        (within_of_mem_refusedChains hb)

end DecisionTree

/-! ## Records -/

namespace SwitchMaker

/-- The records of a maker that has met the given chains. The log tells of all of them; on record
are some of them, no one of which is inside of another one with the same base, so that each chain is
inside of one on record. -/
structure Recorded (met : List (Place × Refusal)) (m : SwitchMaker) : Prop where
  told : m.told = met.map fun x => (x.2.base, x.2.reason.text)
  covered : ∀ x ∈ met, m.Covers x
  apart : m.refused.Pairwise fun r r' =>
    r.2 = r'.2 → r.1.within r'.1 = false ∧ r'.1.within r.1 = false
  kept : ∃ kept : List (Place × Refusal), kept.Sublist met ∧
    m.refused = kept.map (fun x => (x.1, x.2.base)) ∧ m.refusals = kept.map (·.2)

namespace Recorded

variable {met rest : List (Place × Refusal)} {m n : SwitchMaker} {x : Place × Refusal}

theorem of_sameRecords (h : m.Recorded met) (hsame : m.SameRecords n) : n.Recorded met where
  told := hsame.told.trans h.told
  covered y hy := hsame.covers_iff.mpr (h.covered y hy)
  apart := hsame.refused ▸ h.apart
  kept := hsame.refused ▸ hsame.refusals ▸ h.kept

theorem meet (h : m.Recorded met) (hx : ∀ y ∈ met, y.1.within x.1 = false) :
    (m.meet x).Recorded (met ++ [x]) := by
  obtain ⟨kept, hsub, hrefused, hrefusals⟩ := h.kept
  obtain ⟨htold, ⟨hc, hrefused', hrefusals'⟩ | ⟨hc, hrefused', hrefusals'⟩⟩ := m.meet_cases x
  · refine ⟨by rw [htold, h.told, List.map_append]; rfl, ?_, hrefused' ▸ h.apart, ?_⟩
    · intro y hy
      rw [Covers, hrefused']
      rcases List.mem_append.mp hy with hy | hy
      · exact h.covered y hy
      · cases List.mem_singleton.mp hy
        exact hc
    · exact ⟨kept, hsub.trans (List.sublist_append_left met [x]), hrefused'.trans hrefused,
        hrefusals'.trans hrefusals⟩
  · refine ⟨by rw [htold, h.told, List.map_append]; rfl, ?_, ?_, ?_⟩
    · intro y hy
      rw [Covers, hrefused']
      rcases List.mem_append.mp hy with hy | hy
      · obtain ⟨r, hr, hcovers⟩ := h.covered y hy
        exact ⟨r, List.mem_append_left _ hr, hcovers⟩
      · cases List.mem_singleton.mp hy
        exact ⟨_, List.mem_append_right _ (List.mem_singleton_self _), rfl, x.1.within_refl⟩
    · rw [hrefused']
      refine List.pairwise_append.mpr ⟨h.apart, List.pairwise_singleton _ _, ?_⟩
      intro r hr r' hr' hbase
      cases List.mem_singleton.mp hr'
      constructor
      · -- What is on record was met before, so it does not lie inside of `x`.
        rw [hrefused] at hr
        obtain ⟨y, hy, rfl⟩ := List.mem_map.mp hr
        exact hx y (hsub.subset hy)
      · -- If `x` were inside of what is on record, it would be covered.
        rw [Bool.eq_false_iff]
        intro hwithin
        exact hc ⟨r, hr, hbase, hwithin⟩
    · refine ⟨kept ++ [x], hsub.append (List.Sublist.refl [x]), ?_, ?_⟩
      · rw [hrefused', hrefused, List.map_append]
        rfl
      · rw [hrefusals', hrefusals, List.map_append]
        rfl

theorem foldl_meet (h : m.Recorded met)
    (horder : (met ++ rest).Pairwise fun a b => a.1.within b.1 = false) :
    (rest.foldl SwitchMaker.meet m).Recorded (met ++ rest) := by
  induction rest generalizing met m with
  | nil => rw [List.append_nil]; exact h
  | cons x rest ih =>
    rw [List.append_cons] at horder ⊢
    apply ih _ horder
    apply h.meet
    intro y hy
    exact (List.pairwise_append.mp (List.pairwise_append.mp horder).1).2.2 y hy x
      (List.mem_singleton_self x)

theorem fresh (threshold : Int) (strict : Bool) : (ofSettings threshold strict).Recorded [] where
  told := rfl
  covered := nofun
  apart := .nil
  kept := ⟨[], .slnil, rfl, rfl⟩

theorem met_of_mem_refused (h : m.Recorded met) {r : Place × String} (hr : r ∈ m.refused) :
    ∃ x ∈ met, x.1 = r.1 ∧ x.2.base = r.2 := by
  obtain ⟨kept, hsub, hrefused, _⟩ := h.kept
  rw [hrefused] at hr
  obtain ⟨x, hx, rfl⟩ := List.mem_map.mp hr
  exact ⟨x, hsub.subset hx, rfl, rfl⟩

/-- One of two records with the same base is inside of the other only if they are one record. -/
theorem eq_of_within (h : m.Recorded met) {r r' : Place × String} (hr : r ∈ m.refused)
    (hr' : r' ∈ m.refused) (hbase : r.2 = r'.2) (hwithin : r.1.within r'.1 = true) : r = r' := by
  have hapart := h.apart
  obtain ⟨before, after, hlist⟩ := List.append_of_mem hr'
  rw [hlist] at hr hapart
  obtain ⟨_, hafter, hbefore⟩ := List.pairwise_append.mp hapart
  rcases List.mem_append.mp hr with hr | hr
  · cases hwithin.symm.trans (hbefore r hr r' List.mem_cons_self hbase).1
  · rcases List.mem_cons.mp hr with rfl | hr
    · rfl
    · cases hwithin.symm.trans ((List.pairwise_cons.mp hafter).1 r hr hbase.symm).2

/-- **On record are the outermost ones of the chains that were met, base by base.** -/
theorem mem_refused_iff (h : m.Recorded met) {r : Place × String} :
    r ∈ m.refused ↔ (∃ x ∈ met, x.1 = r.1 ∧ x.2.base = r.2) ∧
      ∀ y ∈ met, y.2.base = r.2 → r.1.within y.1 = true → y.1 = r.1 := by
  constructor
  · intro hr
    refine ⟨h.met_of_mem_refused hr, ?_⟩
    intro y hy hbase hwithin
    obtain ⟨r', hr', hbase', hwithin'⟩ := h.covered y hy
    have heq := h.eq_of_within hr hr' (hbase'.trans hbase).symm
      (Place.within_trans hwithin hwithin')
    rw [← heq] at hwithin'
    exact Place.within_antisymm hwithin' hwithin
  · rintro ⟨⟨x, hx, hplace, hbase⟩, houtermost⟩
    obtain ⟨r', hr', hbase', hwithin⟩ := h.covered x hx
    obtain ⟨y, hy, hplace', hbase''⟩ := h.met_of_mem_refused hr'
    rw [hplace, ← hplace'] at hwithin
    have heq := houtermost y hy (hbase''.trans (hbase'.trans hbase)) hwithin
    have hr : r' = r := Prod.ext (hplace'.symm.trans heq) (hbase'.trans hbase)
    exact hr ▸ hr'

end Recorded

/-- Chains that lie inside of those on record change no record. -/
theorem foldl_meet_of_covers {met : List (Place × Refusal)} {m : SwitchMaker}
    (h : ∀ x ∈ met, m.Covers x) :
    (met.foldl meet m).refused = m.refused ∧ (met.foldl meet m).refusals = m.refusals := by
  induction met generalizing m with
  | nil => exact ⟨rfl, rfl⟩
  | cons x met ih =>
    obtain ⟨hx, h⟩ := List.forall_mem_cons.mp h
    obtain ⟨_, ⟨_, hrefused, hrefusals⟩ | ⟨hc, _⟩⟩ := m.meet_cases x
    · have hmet : ∀ y ∈ met, (m.meet x).Covers y := by
        intro y hy
        rw [Covers, hrefused]
        exact h y hy
      rw [← hrefused, ← hrefusals]
      exact ih hmet
    · exact absurd hx hc

end SwitchMaker

/-- **Refused chains are reported once, at the outermost place.** A maker that has no records makes
statements of a tree whose guards can be written. Then every chain that was refused on the way lies
inside of one on record for the same base, and no chain on record is inside of another one for the
same base; so the outermost ones are on record, and the refusals belong to them one by one. Making
the statements once more gives the same ones and adds no refusal. -/
theorem DecisionTree.ifChain_reports_outermost (threshold : Int) (strict : Bool) (place : Place)
    {t : DecisionTree} (ht : t.Guarded (·.isPrintable = true)) :
    ∃ body m met, t.ifChain place (some (.ofSettings threshold strict)) = .ok (body, some m) ∧
      (∀ x, x ∈ met ↔ t.RefusedIn (max 1 threshold) strict place x) ∧
      m.Recorded met ∧
      (∀ r, r ∈ m.refused ↔ (∃ x ∈ met, x.1 = r.1 ∧ x.2.base = r.2) ∧
        ∀ y ∈ met, y.2.base = r.2 → r.1.within y.1 = true → y.1 = r.1) ∧
      ∃ m', t.ifChain place (some m) = .ok (body, some m') ∧
        m'.refused = m.refused ∧ m'.refusals = m.refusals := by
  obtain ⟨body, hsteady⟩ : ∃ body, Steady (max 1 threshold) strict t.ifChain _ body :=
    ifChain_steady ht
  obtain ⟨m, hrun, hmeets⟩ := hsteady (.ofSettings threshold strict) place rfl rfl
  obtain ⟨m', hrun', hmeets'⟩ := hsteady m place hmeets.agrees.1 hmeets.agrees.2
  have hrecorded : m.Recorded (t.refusedChains (max 1 threshold) strict place) :=
    ((SwitchMaker.Recorded.fresh threshold strict).foldl_meet
      (t.pairwise_refusedChains place)).of_sameRecords hmeets.records
  obtain ⟨hrefused, hrefusals⟩ := SwitchMaker.foldl_meet_of_covers hrecorded.covered
  exact ⟨body, m, _, hrun, fun _ => mem_refusedChains, hrecorded,
    fun _ => hrecorded.mem_refused_iff, m', hrun', hmeets'.records.refused.trans hrefused,
    hmeets'.records.refusals.trans hrefusals⟩

namespace NestedTail

open Sample

/-- `kind === 1 ? (a ? f() : g()) : kind === 2 ? (b ? h() : i()) : kind === 3 ? j() : kind === 4 &&
k()` -/
def tree : DecisionTree :=
  .ofExpr true (.cond (isKind "1") (.cond (.name "a") (act "f") (act "g"))
    (.cond (isKind "2") (.cond (.name "b") (act "h") (act "i"))
      (.cond (isKind "3") (act "j") (.logical (isKind "4") "&&" (act "k")))))

/-- The chain of four guards is refused, and so is the chain of the last three. Only the first one
is on record, also after the statements are made once more. -/
theorem tree_reports_outermost :
    tree.refusedChains 3 true {} =
        [({}, ⟨"kind", .nested "1"⟩), (⟨0, [.no]⟩, ⟨"kind", .nested "2"⟩)] ∧
      ∃ body m m', tree.ifChain {} (some (.ofSettings 3 true)) = .ok (body, some m) ∧
        m.refused = [({}, "kind")] ∧ m.refusals = [⟨"kind", .nested "1"⟩] ∧
        tree.ifChain {} (some m) = .ok (body, some m') ∧ m'.refusals = m.refusals := by
  have hguarded : tree.Guarded (·.isPrintable = true) :=
    DecisionTree.guarded_ofExpr_isPrintable true (by decide)
  obtain ⟨body, m, met, hrun, _, _, _, m', hrun', _, hrefusals⟩ :=
    tree.ifChain_reports_outermost 3 true {} hguarded
  have hrecords : (tree.ifChain {} (some (.ofSettings 3 true))).toOption.bind
      (fun r => r.2.map fun m => (m.refused, m.refusals)) =
        some ([({}, "kind")], [⟨"kind", .nested "1"⟩]) := by
    decide +kernel
  rw [hrun] at hrecords
  obtain ⟨hrefused, hreported⟩ := Prod.mk.inj (Option.some.inj hrecords)
  exact ⟨by decide +kernel, body, m, m', hrun, hrefused, hreported, hrun', hrefusals⟩

end NestedTail

end CondUnfold
