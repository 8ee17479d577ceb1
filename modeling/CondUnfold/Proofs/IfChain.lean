import CondUnfold.Proofs.SwitchMeaning
import CondUnfold.Proofs.Trace
import CondUnfold.Proofs.Unfailing
import CondUnfold.Unfolding

/-!
# A chain of `if` statements does what the expression does

There are two steps. An expression that is evaluated for its effect does what its decision tree does
(`run_ofExpr`), and a decision tree does what its statements do (`ifChain_runs`). The second step
takes the maker of switches as it is, as long as each switch that it makes for a part of the tree
does what that part does (`SwitchMaker.Faithful`).
-/

namespace CondUnfold

open Except

variable {σ ε ν : Type} {ev : Evaluator σ ε ν}

/-! ## From expressions to trees -/

namespace DecisionTree

/-- **The decision tree of an expression evaluates it and drops its value.** -/
theorem run_ofExpr (h : ev.ShortCircuits) (e : Expr) :
    (ofExpr true e).run ev = ev.perform (some e) := by
  fun_induction ofExpr true e with
  | case1 t y n ihy ihn =>
    simp only [run, Evaluator.test, ihy, ihn, Evaluator.perform, h.cond t y n, bind_assoc]
    refine congrArg (ev.holds t >>= ·) (funext fun b => ?_)
    cases b <;> rfl
  | case2 l op r _ hop ih =>
    cases eq_of_beq hop
    simp only [run, Evaluator.test, ih, Evaluator.perform, h.and l r, Evaluator.holds_bind,
      bind_assoc]
    refine congrArg (ev.eval l >>= ·) (funext fun v => ?_)
    cases ev.truthy v <;> rfl
  | case3 l op r _ _ hop ih =>
    cases eq_of_beq hop
    simp only [run, Evaluator.test, ih, Evaluator.perform, h.or l r, Evaluator.holds_bind,
      bind_assoc]
    refine congrArg (ev.eval l >>= ·) (funext fun v => ?_)
    cases ev.truthy v <;> rfl
  | case4 l op r _ _ _ hop ih =>
    cases eq_of_beq hop
    simp only [run, Evaluator.test, ih, Evaluator.perform, h.coalesce l r, h.isNull l,
      bind_map_left, bind_assoc]
    refine congrArg (ev.eval l >>= ·) (funext fun v => ?_)
    cases ev.nullish v <;> rfl
  | case5 | case6 | case7 => rfl

/-! ## From trees to statements -/

theorem exec_attachElse (guard : Option Expr) (yes no : List Stmt) :
    ev.exec (attachElse guard yes no) =
      (do if ← ev.test guard then ev.execAll yes else ev.execAll no) := by
  unfold attachElse
  split <;> simp [Evaluator.exec]

end DecisionTree

/-- Every switch that the maker makes for a part of the tree does what that part does. -/
def SwitchMaker.Faithful (m : SwitchMaker) (ev : Evaluator σ ε ν) (t : DecisionTree) : Prop :=
  ∀ part ∈ t.nodes, ∀ place subject arms m',
    m.trySwitch place part = .ok (some (subject, arms), m') →
      ev.exec (.switch subject arms) = Completion.normally (part.run ev)

/-- **A strict maker is faithful where no chain is longer than the threshold**, since it then looks
at every guard as a whole. -/
theorem SwitchMaker.faithful_of_short {P : Expr → Prop} (laws : ev.Compares P)
    (hkeeps : ∀ base value, base.isBase = true → ev.Keeps base value) {m : SwitchMaker}
    (hstrict : m.strict = true) {t : DecisionTree} (ht : t.Guarded P)
    (hshort : ∀ part ∈ t.nodes, part.spine.length ≤ m.threshold.toNat) : m.Faithful ev t := by
  intro part hpart place subject arms m' hfound
  have hswitch := (trySwitch_cases hfound).2 subject arms rfl
  rw [hstrict] at hswitch
  refine hswitch.exec_eq laws (fun e he => (ht.of_mem_nodes hpart).of_mem_spine he)
    (fun g hg d hd => ?_) (fun _ _ _ _ _ value _ => hkeeps subject value hswitch.isBase)
  rw [← List.take_of_length_le (hshort part hpart)] at hg
  exact testsBase_compares (hswitch.testsBase_take hg) hd

/-- The same for a maker that may be absent. -/
def FaithfulMaker (maker : Option SwitchMaker) (ev : Evaluator σ ε ν) (t : DecisionTree) : Prop :=
  ∀ m, maker = some m → m.Faithful ev t

/-- The second maker is the first one at a later time: it has the same settings. -/
def SameMaker (maker maker' : Option SwitchMaker) : Prop :=
  ∀ m', maker' = some m' → ∃ m, maker = some m ∧ m.Agrees m'

theorem SameMaker.refl (maker : Option SwitchMaker) : SameMaker maker maker :=
  fun m hm => ⟨m, hm, rfl, rfl⟩

theorem SameMaker.trans {maker₁ maker₂ maker₃ : Option SwitchMaker} (h : SameMaker maker₁ maker₂)
    (h' : SameMaker maker₂ maker₃) : SameMaker maker₁ maker₃ := by
  intro m₃ hm₃
  obtain ⟨m₂, hm₂, hset⟩ := h' m₃ hm₃
  obtain ⟨m₁, hm₁, hset'⟩ := h m₂ hm₂
  exact ⟨m₁, hm₁, hset.1.trans hset'.1, hset.2.trans hset'.2⟩

namespace FaithfulMaker

variable {maker maker' : Option SwitchMaker} {t part : DecisionTree}

theorem absent : FaithfulMaker none ev t := nofun

theorem of_same (h : FaithfulMaker maker ev t) (hsame : SameMaker maker maker') :
    FaithfulMaker maker' ev t := by
  intro m' hm' part hpart place subject arms m'' hfound
  obtain ⟨m, hm, hset⟩ := hsame m' hm'
  have hswitch := (SwitchMaker.trySwitch_cases hfound).2 subject arms rfl
  rw [hset.1, hset.2] at hswitch
  obtain ⟨_, hfound'⟩ := SwitchMaker.trySwitch_of_isSwitchFor place hswitch
  exact h m hm part hpart place subject arms _ hfound'

theorem of_nodes (h : FaithfulMaker maker ev t) (hsub : part.nodes ⊆ t.nodes) :
    FaithfulMaker maker ev part :=
  fun m hm part' hpart' => h m hm part' (hsub hpart')

end FaithfulMaker

namespace DecisionTree

theorem mem_nodes (t : DecisionTree) : t ∈ t.nodes := by
  cases t <;> exact List.mem_cons_self

theorem switch?_same {maker maker' : Option SwitchMaker} {place : Place} {t : DecisionTree}
    {found : Option Stmt} (h : switch? maker place t = .ok (found, maker')) :
    SameMaker maker maker' := by
  cases maker with
  | none => cases h; exact nofun
  | some m =>
    simp only [switch?, bind_eq_ok] at h
    obtain ⟨⟨found₀, m'⟩, hfound, h⟩ := h
    cases h
    rintro _ ⟨⟩
    exact ⟨m, rfl, (SwitchMaker.trySwitch_cases hfound).1⟩

/-- A switch that is found comes from a maker that is there. -/
theorem switch?_found {maker maker' : Option SwitchMaker} {place : Place} {t : DecisionTree}
    {s : Stmt} (h : switch? maker place t = .ok (some s, maker')) :
    ∃ m m' base arms, maker = some m ∧ s = .switch base arms ∧
      m.trySwitch place t = .ok (some (base, arms), m') := by
  cases maker with
  | none => cases h
  | some m =>
    simp only [switch?, bind_eq_ok] at h
    obtain ⟨⟨found, m'⟩, hfound, h⟩ := h
    cases found with
    | none => cases h
    | some found =>
      cases h
      exact ⟨m, m', found.1, found.2, rfl, rfl, hfound⟩

theorem exec_switch? {maker maker' : Option SwitchMaker} {place : Place} {t : DecisionTree}
    {s : Stmt} (hmaker : FaithfulMaker maker ev t)
    (h : switch? maker place t = .ok (some s, maker')) :
    ev.exec s = Completion.normally (t.run ev) := by
  obtain ⟨m, m', base, arms, rfl, rfl, hfound⟩ := switch?_found h
  exact hmaker m rfl t t.mem_nodes place base arms m' hfound

/-- The statements of a tree that does not become a switch as a whole. -/
def ifStmts : DecisionTree → Place → Option SwitchMaker →
    Except Error (List Stmt × Option SwitchMaker)
  | .leaf none, _, maker => return ([], maker)
  | .leaf (some e), _, maker => return ([.action (some e)], maker)
  | .onYes guard y, place, maker => do
    let (yes, maker) ← y.ifChain (place.step .yes) maker
    return ([.ifThen guard (.block yes)], maker)
  | .onNo guard n, place, maker => do
    let (no, maker) ← n.ifChain (place.step .no) maker
    return ([.ifThen (guard.map Expr.negate) (.block no)], maker)
  | .fork guard y n, place, maker => do
    let (no, maker) ← n.ifChain (place.step .no) maker
    let (yes, maker) ← y.ifChain (place.step .yes) maker
    return ([attachElse guard yes no], maker)

/-- At each tree a switch comes first, and stands alone if there is one. -/
theorem ifChain_eq (t : DecisionTree) (place : Place) (maker : Option SwitchMaker) :
    t.ifChain place maker = (do
      match ← switch? maker place t with
      | (some s, maker) => return ([s], maker)
      | (none, maker) => t.ifStmts place maker) := by
  cases t with
  | leaf action =>
    rw [ifChain]
    refine congrArg (switch? maker place _ >>= ·) (funext fun ⟨found, maker⟩ => ?_)
    cases found <;> cases action <;> rfl
  | onYes | onNo | fork =>
    rw [ifChain]
    refine congrArg (switch? maker place _ >>= ·) (funext fun ⟨found, maker⟩ => ?_)
    cases found <;> rfl

theorem ifChain_cases {t : DecisionTree} {place : Place} {maker maker' : Option SwitchMaker}
    {body : List Stmt} (h : t.ifChain place maker = .ok (body, maker')) :
    (∃ s, switch? maker place t = .ok (some s, maker') ∧ body = [s]) ∨
      ∃ maker₁, switch? maker place t = .ok (none, maker₁) ∧
        t.ifStmts place maker₁ = .ok (body, maker') := by
  rw [ifChain_eq, bind_eq_ok] at h
  obtain ⟨⟨found, maker₁⟩, hfound, h⟩ := h
  cases found with
  | some s => cases h; exact .inl ⟨s, hfound, rfl⟩
  | none => exact .inr ⟨maker₁, hfound, h⟩

/-- What the search for a switch keeps of the maker is kept by the whole chain. -/
theorem ifChain_preserves {P : Option SwitchMaker → Prop}
    (hswitch : ∀ {maker place t found maker'}, switch? maker place t = .ok (found, maker') →
      P maker → P maker') {t : DecisionTree} {place : Place} {maker maker' : Option SwitchMaker}
    {body : List Stmt} (h : t.ifChain place maker = .ok (body, maker')) (hP : P maker) :
    P maker' := by
  induction t generalizing place maker maker' body with
  | leaf action =>
    obtain ⟨s, hfound, _⟩ | ⟨maker₁, hfound, h⟩ := ifChain_cases h
    · exact hswitch hfound hP
    · cases action <;> (cases h; exact hswitch hfound hP)
  | onYes guard y ih =>
    obtain ⟨s, hfound, _⟩ | ⟨maker₁, hfound, h⟩ := ifChain_cases h
    · exact hswitch hfound hP
    · obtain ⟨⟨yes, maker₂⟩, hyes, h⟩ := bind_eq_ok.mp h
      cases h
      exact ih hyes (hswitch hfound hP)
  | onNo guard n ih =>
    obtain ⟨s, hfound, _⟩ | ⟨maker₁, hfound, h⟩ := ifChain_cases h
    · exact hswitch hfound hP
    · obtain ⟨⟨no, maker₂⟩, hno, h⟩ := bind_eq_ok.mp h
      cases h
      exact ih hno (hswitch hfound hP)
  | fork guard y n ihy ihn =>
    obtain ⟨s, hfound, _⟩ | ⟨maker₁, hfound, h⟩ := ifChain_cases h
    · exact hswitch hfound hP
    · obtain ⟨⟨no, maker₂⟩, hno, h⟩ := bind_eq_ok.mp h
      obtain ⟨⟨yes, maker₃⟩, hyes, h⟩ := bind_eq_ok.mp h
      cases h
      exact ihy hyes (ihn hno (hswitch hfound hP))

theorem ifChain_same {t : DecisionTree} {place : Place} {maker maker' : Option SwitchMaker}
    {body : List Stmt} (h : t.ifChain place maker = .ok (body, maker')) :
    SameMaker maker maker' :=
  ifChain_preserves (fun hfound hsame => hsame.trans (switch?_same hfound)) h (.refl maker)

/-- **How the statements of a tree come about.** A property of trees and their statements holds if
it holds where a tree becomes a switch or an action, and passes on from branches to the whole. The
maker that is asked has the settings of the one at the start. -/
theorem ifChain_induction {maker : Option SwitchMaker} {P : DecisionTree → List Stmt → Prop}
    (switch : ∀ {maker₁ maker₂ place t s}, SameMaker maker maker₁ →
      switch? maker₁ place t = .ok (some s, maker₂) → P t [s])
    (idle : P (.leaf none) [])
    (act : ∀ e, P (.leaf (some e)) [.action (some e)])
    (onYes : ∀ {guard y yes}, P y yes → P (.onYes guard y) [.ifThen guard (.block yes)])
    (onNo : ∀ {guard n no}, P n no →
      P (.onNo guard n) [.ifThen (guard.map Expr.negate) (.block no)])
    (fork : ∀ {guard y n yes no}, P y yes → P n no →
      P (.fork guard y n) [attachElse guard yes no])
    {t : DecisionTree} {place : Place} {maker₁ maker₂ : Option SwitchMaker} {body : List Stmt}
    (hsame : SameMaker maker maker₁) (h : t.ifChain place maker₁ = .ok (body, maker₂)) :
    P t body := by
  induction t generalizing place maker₁ maker₂ body with
  | leaf action =>
    obtain ⟨s, hfound, rfl⟩ | ⟨_, _, h⟩ := ifChain_cases h
    · exact switch hsame hfound
    · cases action with
      | none => cases h; exact idle
      | some e => cases h; exact act e
  | onYes guard y ih =>
    obtain ⟨s, hfound, rfl⟩ | ⟨_, hnone, h⟩ := ifChain_cases h
    · exact switch hsame hfound
    · obtain ⟨⟨yes, _⟩, hyes, h⟩ := bind_eq_ok.mp h
      cases h
      exact onYes (ih (hsame.trans (switch?_same hnone)) hyes)
  | onNo guard n ih =>
    obtain ⟨s, hfound, rfl⟩ | ⟨_, hnone, h⟩ := ifChain_cases h
    · exact switch hsame hfound
    · obtain ⟨⟨no, _⟩, hno, h⟩ := bind_eq_ok.mp h
      cases h
      exact onNo (ih (hsame.trans (switch?_same hnone)) hno)
  | fork guard y n ihy ihn =>
    obtain ⟨s, hfound, rfl⟩ | ⟨_, hnone, h⟩ := ifChain_cases h
    · exact switch hsame hfound
    · obtain ⟨⟨no, _⟩, hno, h⟩ := bind_eq_ok.mp h
      obtain ⟨⟨yes, _⟩, hyes, h⟩ := bind_eq_ok.mp h
      cases h
      have hsame := hsame.trans (switch?_same hnone)
      exact fork (ihy (hsame.trans (ifChain_same hno)) hyes) (ihn hsame hno)

/-- The guards of the tree of an expression are parts of it, or comparisons of such parts with
`null`. -/
theorem guarded_ofExpr {P : Expr → Prop} (hpart : ∀ e, P e → ∀ part ∈ e.children, P part)
    (hnull : ∀ e, P e → P e.looseNullCheck) (descend : Bool) {e : Expr} (h : P e) :
    (ofExpr descend e).Guarded P := by
  fun_induction ofExpr descend e with
  | case1 t y n ihy ihn =>
    have hparts := hpart _ h
    simp only [Expr.children, List.forall_mem_cons] at hparts
    obtain ⟨ht, hy, hn, _⟩ := hparts
    exact ⟨⟨t, rfl, ht⟩, ihy hy, ihn hn⟩
  | case2 l op r _ _ ih | case3 l op r _ _ _ ih =>
    have hparts := hpart _ h
    simp only [Expr.children, List.forall_mem_cons] at hparts
    obtain ⟨hl, hr, _⟩ := hparts
    exact ⟨⟨l, rfl, hl⟩, ih hr⟩
  | case4 l op r _ _ _ _ ih =>
    have hparts := hpart _ h
    simp only [Expr.children, List.forall_mem_cons] at hparts
    obtain ⟨hl, hr, _⟩ := hparts
    exact ⟨⟨l.looseNullCheck, rfl, hnull l hl⟩, ih hr⟩
  | case5 | case6 | case7 => trivial

theorem guarded_ofExpr_isPrintable (descend : Bool) {e : Expr} (h : e.isPrintable = true) :
    (ofExpr descend e).Guarded (·.isPrintable = true) :=
  guarded_ofExpr (fun _ he _ hpart => Expr.isPrintable_of_mem_children he hpart)
    (fun e he => by simpa [Expr.looseNullCheck, Expr.isPrintable] using he) descend h

/-- **The statements of a decision tree do what the tree does**, if all of its guards are there. -/
theorem ifChain_runs (hnot : ∀ e, ev.holds e.negate = (!·) <$> ev.holds e) {t : DecisionTree}
    (ht : t.Guarded fun _ => True) {place : Place} {maker maker' : Option SwitchMaker}
    {body : List Stmt} (hmaker : FaithfulMaker maker ev t)
    (h : t.ifChain place maker = .ok (body, maker')) :
    ev.execAll body = Completion.normally (t.run ev) := by
  revert ht hmaker
  refine ifChain_induction
    (P := fun t body => t.Guarded (fun _ => True) → FaithfulMaker maker ev t →
      ev.execAll body = Completion.normally (t.run ev))
    ?switch ?idle ?act ?onYes ?onNo ?fork (.refl maker) h
  case switch =>
    intro maker₁ maker₂ place t s hsame hfound _ hmaker
    rw [Evaluator.execAll_singleton, exec_switch? (hmaker.of_same hsame) hfound]
  case idle =>
    intro _ _
    rfl
  case act =>
    intro e _ _
    rw [Evaluator.execAll_singleton]
    rfl
  case onYes =>
    intro guard y yes ih ht hmaker
    have hy := ih ht.2 (hmaker.of_nodes (List.subset_cons_self _ _))
    rw [Evaluator.execAll_singleton, run, Completion.normally_branch, ← hy]
    rfl
  case onNo =>
    intro guard n no ih ht hmaker
    obtain ⟨⟨g, rfl, _⟩, hguards⟩ := ht
    have hn := ih hguards (hmaker.of_nodes (List.subset_cons_self _ _))
    rw [Evaluator.execAll_singleton, run, Completion.normally_branch, ← hn]
    simp only [Option.map_some, Evaluator.exec, Evaluator.test, hnot g, bind_map_left]
    refine congrArg (ev.holds g >>= ·) (funext fun b => ?_)
    cases b <;> rfl
  case fork =>
    intro guard y n yes no ihy ihn ht hmaker
    have hy := ihy ht.2.1 (hmaker.of_nodes fun part hp => by simp [nodes, hp])
    have hn := ihn ht.2.2 (hmaker.of_nodes fun part hp => by simp [nodes, hp])
    rw [Evaluator.execAll_singleton, exec_attachElse, run, Completion.normally_branch, ← hn, ← hy]

/-- The two steps together. -/
theorem ifChain_ofExpr_runs (laws : ev.ShortCircuits) {e : Expr} {place : Place}
    {maker maker' : Option SwitchMaker} {body : List Stmt}
    (hmaker : FaithfulMaker maker ev (ofExpr true e))
    (h : (ofExpr true e).ifChain place maker = .ok (body, maker')) :
    ev.execAll body = Completion.normally (ev.eval e) := by
  have hguards : (ofExpr true e).Guarded fun _ => True :=
    guarded_ofExpr (fun _ _ _ _ => trivial) (fun _ _ => trivial) true trivial
  rw [ifChain_runs laws.not hguards hmaker h, run_ofExpr laws e]
  simp only [Completion.normally, Evaluator.perform, bind_assoc, pure_bind]

/-! ## Statements for every expression -/

theorem ifChain_error_cases {t : DecisionTree} {place : Place} {maker : Option SwitchMaker}
    {e : Error} (h : t.ifChain place maker = .error e) :
    (∃ m, maker = some m ∧ m.trySwitch place t = .error e) ∨
      ∃ maker₁, SameMaker maker maker₁ ∧ t.ifStmts place maker₁ = .error e := by
  rw [ifChain_eq] at h
  obtain hswitch | ⟨⟨found, maker₁⟩, hfound, h⟩ := bind_eq_error.mp h
  · cases maker with
    | none => cases hswitch
    | some m =>
      obtain hfail | ⟨_, _, hok⟩ := bind_eq_error.mp hswitch
      · exact .inl ⟨m, rfl, hfail⟩
      · cases hok
  · cases found with
    | some s => cases h
    | none => exact .inr ⟨maker₁, switch?_same hfound, h⟩

/-- **Only a maker of switches fails.** If there are no statements for a tree, then it is because
the maker fails for one of its nodes, in the same way. -/
theorem ifChain_eq_error {t : DecisionTree} {place : Place} {maker : Option SwitchMaker} {e : Error}
    (h : t.ifChain place maker = .error e) :
    ∃ m place', ∃ part ∈ t.nodes,
      SameMaker maker (some m) ∧ m.trySwitch place' part = .error e := by
  induction t generalizing place maker with
  | leaf action =>
    obtain ⟨m, rfl, hfail⟩ | ⟨_, _, h⟩ := ifChain_error_cases h
    · exact ⟨m, place, _, mem_nodes _, .refl _, hfail⟩
    · cases action <;> cases h
  | onYes guard y ih =>
    obtain ⟨m, rfl, hfail⟩ | ⟨_, hsame, h⟩ := ifChain_error_cases h
    · exact ⟨m, place, _, mem_nodes _, .refl _, hfail⟩
    · obtain hyes | ⟨_, _, hok⟩ := bind_eq_error.mp h
      · obtain ⟨m, place', part, hpart, hsame', hfail⟩ := ih hyes
        exact ⟨m, place', part, List.mem_cons_of_mem _ hpart, hsame.trans hsame', hfail⟩
      · cases hok
  | onNo guard n ih =>
    obtain ⟨m, rfl, hfail⟩ | ⟨_, hsame, h⟩ := ifChain_error_cases h
    · exact ⟨m, place, _, mem_nodes _, .refl _, hfail⟩
    · obtain hno | ⟨_, _, hok⟩ := bind_eq_error.mp h
      · obtain ⟨m, place', part, hpart, hsame', hfail⟩ := ih hno
        exact ⟨m, place', part, List.mem_cons_of_mem _ hpart, hsame.trans hsame', hfail⟩
      · cases hok
  | fork guard y n ihy ihn =>
    obtain ⟨m, rfl, hfail⟩ | ⟨_, hsame, h⟩ := ifChain_error_cases h
    · exact ⟨m, place, _, mem_nodes _, .refl _, hfail⟩
    · obtain hno | ⟨⟨no, maker₂⟩, hno, h⟩ := bind_eq_error.mp h
      · obtain ⟨m, place', part, hpart, hsame', hfail⟩ := ihn hno
        exact ⟨m, place', part, List.mem_cons_of_mem _ (List.mem_append_right _ hpart),
          hsame.trans hsame', hfail⟩
      · obtain hyes | ⟨_, _, hok⟩ := bind_eq_error.mp h
        · obtain ⟨m, place', part, hpart, hsame', hfail⟩ := ihy hyes
          exact ⟨m, place', part, List.mem_cons_of_mem _ (List.mem_append_left _ hpart),
            (hsame.trans (ifChain_same hno)).trans hsame', hfail⟩
        · cases hok

/-- **Without a maker of switches every tree has statements**, and with one, a tree whose guards are
there and can be written. -/
theorem ifChain_isOk {t : DecisionTree} {maker : Option SwitchMaker}
    (h : maker = none ∨ t.Guarded (·.isPrintable = true)) (place : Place) :
    ∃ body maker', t.ifChain place maker = .ok (body, maker') := by
  cases hchain : t.ifChain place maker with
  | ok r => exact ⟨r.1, r.2, rfl⟩
  | error e =>
    obtain ⟨m, place', part, hpart, hsame, hfail⟩ := ifChain_eq_error hchain
    rcases h with rfl | ht
    · obtain ⟨_, hnone, _⟩ := hsame m rfl
      cases hnone
    · obtain ⟨_, hok⟩ := m.trySwitch_isOk place' (ht.of_mem_nodes hpart)
      cases hok.symm.trans hfail

/-- **Unfolding an expression that stands as a statement keeps what it does.** There are statements
for every expression, unless a maker of switches has to write one that has no text. Whatever the
statements are, they end like the expression, in the same state and with the same exception if there
is one. They also make the same evaluations in the same order, if the switches among them do. -/
theorem ifChain_runs_like_expr (laws : ev.ShortCircuits) (e : Expr) (place : Place)
    (maker : Option SwitchMaker) (hmaker : FaithfulMaker maker ev (ofExpr true e)) :
    (maker = none ∨ e.isPrintable = true →
      ∃ body maker', (ofExpr true e).ifChain place maker = .ok (body, maker')) ∧
    ∀ body maker', (ofExpr true e).ifChain place maker = .ok (body, maker') → ∀ s,
      (ev.execAll body).outcome s = (Completion.normally (ev.eval e)).outcome s ∧
      (FaithfulMaker maker (ev.traced true) (ofExpr true e) →
        ev.traceAll true body s = ev.trace true e s) := by
  refine ⟨?_, fun body maker' h s => ⟨?_, fun htraced => ?_⟩⟩
  · exact fun h => ifChain_isOk (h.imp_right (guarded_ofExpr_isPrintable true)) place
  · rw [ifChain_ofExpr_runs laws hmaker h]
  · refine Evaluator.traceAll_eq (f := fun _ => .normal) ?_ s
    rw [ifChain_ofExpr_runs (Evaluator.traced_shortCircuits laws) htraced h, Completion.normally,
      map_eq_pure_bind]

end DecisionTree

namespace KindChain

open Sample

theorem faithful_strict :
    FaithfulMaker (some maker) script.evaluator (.ofExpr true guardedExpr) := by
  rintro _ ⟨⟩
  refine SwitchMaker.faithful_of_short (compares script)
    (fun base value h => script.keeps h value) rfl ?_ (by decide)
  exact ⟨⟨ready, rfl, by simp [guardParts]⟩, ⟨isOne, rfl, by simp [guardParts]⟩, trivial,
    ⟨.logical isTwo "||" isNext, rfl, by simp [guardParts]⟩, trivial,
    ⟨isThree, rfl, by simp [guardParts]⟩, trivial⟩

theorem ifChain_guardedExpr :
    ∃ maker', (DecisionTree.ofExpr true guardedExpr).ifChain {} (some maker) =
      .ok ([.ifThen (some ready) (.block [.switch kind switchArms])], maker') := by
  have hguard : DecisionTree.switch? (some maker) {} (.onYes (some ready) (.ofExpr true expr)) =
      .ok (none, some maker) := rfl
  obtain ⟨m', hfound⟩ := trySwitch_expr (Place.step {} .yes)
  have hchain : (DecisionTree.ofExpr true expr).ifChain (Place.step {} .yes) (some maker) =
      .ok ([.switch kind switchArms], some m') := by
    rw [DecisionTree.ifChain_eq]
    simp only [DecisionTree.switch?, hfound, bind_ok_eq]
    rfl
  refine ⟨some m', ?_⟩
  change (DecisionTree.onYes (some ready) (.ofExpr true expr)).ifChain {} _ = _
  rw [DecisionTree.ifChain_eq, hguard]
  simp only [bind_ok_eq, DecisionTree.ifStmts, hchain, pure_eq_ok]

/-- With a maker the chain becomes a switch inside of an `if`, and without one a chain of four `if`
statements; either does what the expression does. -/
theorem ifChain_runs_like_guardedExpr :
    (∃ body maker', (DecisionTree.ofExpr true guardedExpr).ifChain {} (some maker) =
        .ok (body, maker') ∧
      body = [.ifThen (some ready) (.block [.switch kind switchArms])] ∧
      (script.evaluator.execAll body).outcome [] =
        (Completion.normally (script.evaluator.eval guardedExpr)).outcome [] ∧
      (script.evaluator.execAll body).outcome [] = (.ok .normal, ["next", "h"])) ∧
    ∃ body maker', (DecisionTree.ofExpr true guardedExpr).ifChain {} none = .ok (body, maker') ∧
      script.evaluator.traceAll true body [] = script.evaluator.trace true guardedExpr [] ∧
      script.evaluator.trace true guardedExpr [] =
        [(ready, []), (isOne, []), (isTwo, []), (isNext, []), (isThree, ["next"]),
          (act "h", ["next"])] := by
  have laws := script.evaluator_shortCircuits
  constructor
  · obtain ⟨_, hruns⟩ := DecisionTree.ifChain_runs_like_expr laws guardedExpr {} _ faithful_strict
    obtain ⟨maker', hbody⟩ := ifChain_guardedExpr
    exact ⟨_, maker', hbody, rfl, (hruns _ _ hbody []).1, rfl⟩
  · obtain ⟨hexists, hruns⟩ :=
      DecisionTree.ifChain_runs_like_expr laws guardedExpr {} none .absent
    obtain ⟨body, maker', hbody⟩ := hexists (.inl rfl)
    exact ⟨body, maker', hbody, (hruns body maker' hbody []).2 .absent, rfl⟩

end KindChain
end CondUnfold
