import CondUnfold.Proofs.Writable
import CondUnfold.Unfolder

/-!
# What a pass finds

Work with a log adds events to it and hangs on nothing that is in it, so that its outcome can be told
apart from its log (`Logged.Runs`). The expression of a node has a text (`Node.toExpr_isPrintable`).
Hence no statement that was found fails to unfold (`Trigger.unfolds_rewrite?`), and a pass over a
tree without a defect gives an edit for each of the statements that it picks (`passEdits_runs`). The
pass fails only where the tree has a defect, an expression in it cannot be read, or an edit cannot be
made.
-/

namespace CondUnfold

open Except

/-! ## Expressions of nodes -/

namespace Node

/-- What a node gives has a text. -/
structure Reading.Printable (r : Reading) : Prop where
  expr : ∀ e, r.expr = .ok e → e.isPrintable = true
  items : ∀ es, r.items = .ok es → Expr.arePrintable es = true

variable {source : Bytes} {n : Node} {parts : List Part}

theorem part_mem {role : String} {p : Part} (h : part parts role = .ok p) : p ∈ parts := by
  unfold part at h
  split at h
  next hfind => cases h; exact List.mem_of_find?_eq_some hfind
  next => cases h

theorem partExpr_isPrintable (hparts : ∀ p ∈ parts, p.reading.Printable) {role : String} {e : Expr}
    (h : partExpr parts role = .ok e) : e.isPrintable = true := by
  obtain ⟨p, hp, h⟩ := bind_eq_ok.mp h
  exact (hparts p (part_mem hp)).expr e h

theorem mapM_expr_isPrintable (hparts : ∀ p ∈ parts, p.reading.Printable) {es : List Expr}
    (h : parts.mapM (·.reading.expr) = .ok es) : Expr.arePrintable es = true := by
  refine Expr.arePrintable_iff.mpr fun e he => ?_
  obtain ⟨p, hp, hpe⟩ := mapM_mem h he
  exact (hparts p hp).expr e hpe

theorem flatItems_isPrintable (hparts : ∀ p ∈ parts, p.reading.Printable) {es : List Expr}
    (h : flatItems parts = .ok es) : Expr.arePrintable es = true := by
  induction parts generalizing es with
  | nil => cases h; rfl
  | cons p parts ih =>
    obtain ⟨hp, hparts⟩ := List.forall_mem_cons.mp hparts
    obtain ⟨e, he, h⟩ := bind_eq_ok.mp h
    obtain ⟨rest, hrest, h⟩ := bind_eq_ok.mp h
    have he := hp.expr e he
    have hrest := ih hparts hrest
    split at h
    next => cases h; simp_all [Expr.isPrintable, Expr.arePrintable_iff, or_imp]
    next => cases h; simp_all [Expr.arePrintable]

theorem raw_isPrintable {e : Expr} (h : raw source n = .ok e) : e.isPrintable = true := by
  obtain ⟨text, _, h⟩ := bind_eq_ok.mp h
  cases h
  rfl

theorem operandParts_subset (parts : List Part) : operandParts parts ⊆ parts :=
  fun _ hp => (List.mem_filter.mp hp).1

/-- A logical expression is made for an operator only if that operator has a precedence. -/
theorem isPrintable_of_operator {op : String} {l r : Expr} (hl : l.isPrintable = true)
    (hr : r.isPrintable = true) :
    (if Expr.isLogicalOperator op then Expr.logical l op r else .binary l op r).isPrintable =
      true := by
  split
  next hop =>
    simp [Expr.isPrintable, Expr.isSome_of_logical hop, hl, hr]
  next => simp [Expr.isPrintable, hl, hr]

theorem assemble_isPrintable (hparts : ∀ p ∈ parts, p.reading.Printable) {e : Expr}
    (h : assemble source n parts = .ok e) : e.isPrintable = true := by
  have hoperands : ∀ p ∈ operandParts parts, p.reading.Printable :=
    fun p hp => hparts p (operandParts_subset parts hp)
  have hpart : ∀ role e, partExpr parts role = .ok e → e.isPrintable = true :=
    fun _ _ => partExpr_isPrintable hparts
  unfold assemble at h
  split at h
  · split at h
    next p hp => exact (hoperands p (hp ▸ List.mem_singleton_self p)).expr e h
    next =>
      obtain ⟨es, hes, h⟩ := bind_eq_ok.mp h
      cases h
      exact mapM_expr_isPrintable hoperands hes
  · obtain ⟨t, ht, h⟩ := bind_eq_ok.mp h
    obtain ⟨y, hy, h⟩ := bind_eq_ok.mp h
    obtain ⟨f, hf, h⟩ := bind_eq_ok.mp h
    cases h
    simp [Expr.isPrintable, hpart _ t ht, hpart _ y hy, hpart _ f hf]
  · obtain ⟨o, _, h⟩ := bind_eq_ok.mp h
    obtain ⟨l, hl, h⟩ := bind_eq_ok.mp h
    obtain ⟨r, hr, h⟩ := bind_eq_ok.mp h
    cases h
    exact isPrintable_of_operator (hpart _ l hl) (hpart _ r hr)
  · obtain ⟨o, _, h⟩ := bind_eq_ok.mp h
    obtain ⟨x, hx, h⟩ := bind_eq_ok.mp h
    cases h
    exact hpart _ x hx
  · split at h
    next => exact raw_isPrintable h
    next args hargs =>
      split at h
      next =>
        obtain ⟨f, hf, h⟩ := bind_eq_ok.mp h
        obtain ⟨es, hes, h⟩ := bind_eq_ok.mp h
        cases h
        simp [Expr.isPrintable, hpart _ f hf, (hparts args (part_mem hargs)).items es hes]
      next => exact raw_isPrintable h
  · obtain ⟨x, hx, h⟩ := bind_eq_ok.mp h
    obtain ⟨_, _, h⟩ := bind_eq_ok.mp h
    obtain ⟨_, _, h⟩ := bind_eq_ok.mp h
    cases h
    exact hpart _ x hx
  · obtain ⟨x, hx, h⟩ := bind_eq_ok.mp h
    obtain ⟨i, hi, h⟩ := bind_eq_ok.mp h
    cases h
    simp [Expr.isPrintable, hpart _ x hx, hpart _ i hi]
  · obtain ⟨es, hes, h⟩ := bind_eq_ok.mp h
    cases h
    exact flatItems_isPrintable hoperands hes
  · split at h
    · obtain ⟨text, _, h⟩ := bind_eq_ok.mp h
      cases h
      rfl
    · split at h
      · obtain ⟨text, _, h⟩ := bind_eq_ok.mp h
        cases h
        rfl
      · exact raw_isPrintable h

mutual

theorem read_printable (source : Bytes) : (n : Node) → (read source n).Printable
  | ⟨kind, start, stop, role, named, missing, mark, children⟩ => by
    have hparts := readAll_printable source children
    rw [read]
    exact ⟨fun e he => assemble_isPrintable hparts he, fun es hes =>
      mapM_expr_isPrintable (fun p hp => hparts p (operandParts_subset _ hp)) hes⟩

theorem readAll_printable (source : Bytes) :
    (ns : List Node) → ∀ p ∈ readAll source ns, p.reading.Printable
  | [] => nofun
  | n :: ns => by
    rw [readAll]
    exact List.forall_mem_cons.mpr ⟨read_printable source n, readAll_printable source ns⟩

end

/-- **The expression of a node can be written.** -/
theorem toExpr_isPrintable {e : Expr} (h : n.toExpr source = .ok e) : e.isPrintable = true :=
  (read_printable source n).expr e h

/-- The expression of a statement is the one inside of its first operand. -/
theorem trigger?_eq_some {kind : Trigger.Kind} {m : Node} (h : n.trigger? = some (kind, m)) :
    (∃ first ∈ n.operands, m = first.unwrap) ∧
      (kind = .logical ∧ m.isLogical = true ∨
        kind ≠ .logical ∧ m.kind = "ternary_expression") := by
  simp only [trigger?] at h
  split at h
  next => cases h
  next first others hoperands =>
    have hfirst : ∃ node ∈ n.operands, first.unwrap = node.unwrap :=
      ⟨first, hoperands ▸ List.mem_cons_self, rfl⟩
    split at h
    next =>
      split at h
      next hternary => cases h; exact ⟨hfirst, .inr ⟨by decide, eq_of_beq hternary⟩⟩
      next =>
        split at h
        next hlogical => cases h; exact ⟨hfirst, .inl ⟨rfl, hlogical⟩⟩
        next => cases h
    next =>
      split at h
      next =>
        split at h
        next hternary => cases h; exact ⟨hfirst, .inr ⟨by decide, eq_of_beq hternary⟩⟩
        next => cases h
      next => cases h

/-- A statement that was found belongs to a node that was visited. -/
theorem triggers_found {root : Node} {ts : List Trigger} (h : root.triggers source = .ok ts)
    {t : Trigger} (ht : t ∈ ts) :
    ∃ v ∈ root.visits, ∃ m, v.node.trigger? = some (t.kind, m) ∧ m.toExpr source = .ok t.expr ∧
      t.site = v.site source := by
  obtain ⟨found, hfound, h⟩ := bind_eq_ok.mp h
  cases h
  obtain ⟨_, hmem, rfl⟩ := List.mem_filterMap.mp ht
  obtain ⟨v, hv, hvt⟩ := mapM_mem hfound hmem
  unfold Visit.trigger? at hvt
  split at hvt
  next => cases hvt
  next kind m htrigger =>
    obtain ⟨e, he, hvt⟩ := bind_eq_ok.mp hvt
    cases hvt
    exact ⟨v, hv, m, htrigger, he, rfl⟩

theorem triggers_isPrintable {root : Node} {ts : List Trigger} (h : root.triggers source = .ok ts)
    {t : Trigger} (ht : t ∈ ts) : t.expr.isPrintable = true := by
  obtain ⟨_, _, _, _, he, _⟩ := triggers_found h ht
  exact toExpr_isPrintable he

end Node

/-! ## Work with a log -/

namespace Logged

variable {α β : Type}

/-- The work has the outcome `r` and adds `events` to the log, whatever is in the log. -/
def Runs (x : Logged α) (r : Except Error α) (events : Log) : Prop :=
  ∀ log, x.run log = (r, log ++ events)

theorem Runs.outcome {x : Logged α} {r : Except Error α} {events : Log} (h : x.Runs r events) :
    x.outcome = (r, events) := h []

theorem Runs.unique {x : Logged α} {r r' : Except Error α} {events events' : Log}
    (h : x.Runs r events) (h' : x.Runs r' events') : r = r' ∧ events = events' :=
  Prod.mk.inj (h.outcome.symm.trans h'.outcome)

theorem runs_pure (a : α) : Runs (pure a) (.ok a) [] :=
  fun log => by rw [List.append_nil]; rfl

theorem runs_tell (events : Log) : Runs (tell events) (.ok ()) events := fun _ => rfl

theorem runs_lift (x : Except Error α) : Runs (liftM x) x [] :=
  fun log => by rw [List.append_nil]; rfl

theorem Runs.bind {x : Logged α} {f : α → Logged β} {a : α} {r : Except Error β}
    {events events' : Log} (hx : x.Runs (.ok a) events) (hf : (f a).Runs r events') :
    (x >>= f).Runs r (events ++ events') := by
  intro log
  change ExceptT.bindCont f (x.run log).1 (x.run log).2 = _
  rw [hx log, ← List.append_assoc]
  exact hf _

theorem runs_lift_bind {x : Except Error α} {f : α → Logged β} {a : α} {r : Except Error β}
    {events : Log} (hx : x = .ok a) (hf : (f a).Runs r events) : (liftM x >>= f).Runs r events := by
  subst hx
  exact (runs_lift _).bind hf

theorem runs_lift_error {x : Except Error α} {f : α → Logged β} {e : Error} (hx : x = .error e) :
    (liftM x >>= f).Runs (.error e) [] := by
  subst hx
  exact fun log => by rw [List.append_nil]; rfl

theorem runs_tell_pure (events : Log) (a : α) :
    (tell events >>= fun _ => pure a).Runs (.ok a) events := fun _ => rfl

theorem Runs.bind_error {x : Logged α} {f : α → Logged β} {e : Error} {events : Log}
    (hx : x.Runs (.error e) events) : (x >>= f).Runs (.error e) events := by
  intro log
  change ExceptT.bindCont f (x.run log).1 (x.run log).2 = _
  rw [hx log]
  rfl

end Logged

/-! ## What takes the place of a statement -/

/-- All events come from one part of the work. -/
def Log.AllFrom (channel : Channel) (log : Log) : Prop := ∀ e ∈ log, e.channel = channel

theorem Log.AllFrom.append {channel : Channel} {log : Log} {e : Event} (h : Log.AllFrom channel log)
    (he : e.channel = channel) : Log.AllFrom channel (log ++ [e]) :=
  List.forall_mem_append.mpr ⟨h, by simpa using he⟩

theorem SwitchMaker.trySwitch_log {m m' : SwitchMaker} {place : Place} {t : DecisionTree}
    {found : Option (Expr × List (Arm Stmt))} (h : m.trySwitch place t = .ok (found, m'))
    (hm : Log.AllFrom .switches m.log) : Log.AllFrom .switches m'.log := by
  unfold trySwitch at h
  split at h
  next => cases h; exact hm
  next =>
    obtain ⟨bases, _, h⟩ := bind_eq_ok.mp h
    cases bases with
    | nil => cases h; exact hm
    | cons first others =>
      obtain ⟨base?, _, h⟩ := bind_eq_ok.mp h
      cases base? with
      | none =>
        obtain ⟨text, _, h⟩ := bind_eq_ok.mp h
        cases h
        exact hm.append rfl
      | some base =>
        cases harms : collectArms m.strict base t with
        | ok arms =>
          simp only [harms, bind_eq_ok] at h
          obtain ⟨text, _, h⟩ := h
          cases h
          exact hm.append rfl
        | error stop =>
          cases stop with
          | failed e => simp only [harms] at h; cases h
          | refused reason =>
            simp only [harms, bind_eq_ok] at h
            obtain ⟨text, _, h⟩ := h
            cases h
            unfold refuse
            split <;> exact hm.append rfl

theorem DecisionTree.ifChain_log {t : DecisionTree} {place : Place}
    {maker maker' : Option SwitchMaker} {body : List Stmt}
    (h : t.ifChain place maker = .ok (body, maker'))
    (hmaker : Log.AllFrom .switches (maker.elim [] (·.log))) :
    Log.AllFrom .switches (maker'.elim [] (·.log)) := by
  refine ifChain_preserves (P := fun maker => Log.AllFrom .switches (maker.elim [] (·.log)))
    (fun {maker place t found maker'} hfound hmaker => ?_) h hmaker
  cases maker with
  | none => cases hfound; exact hmaker
  | some m =>
    obtain ⟨⟨_, m'⟩, htry, h⟩ := bind_eq_ok.mp hfound
    cases h
    exact SwitchMaker.trySwitch_log htry hmaker

/-- What takes the place of a statement, if it is to be replaced. -/
def Trigger.rewrite? (o : Options) (t : Trigger) : Option Replacement :=
  match (t.unfold o).outcome.1 with
  | .ok r => r
  | .error _ => none

namespace Trigger

/-- The work for a statement is done without failure, and what takes its place can be written. -/
def Unfolds (o : Options) (t : Trigger) (r? : Option Replacement) (events : Log) : Prop :=
  (t.unfold o).Runs (.ok r?) events ∧ Log.AllFrom .switches events ∧
    ∀ r, r? = some r → r.trigger = t ∧ Filled (slotsOf r.body)

theorem unfold_return_runs (o : Options) {t : Trigger} (hkind : t.kind = .ret) :
    ∃ body, GuardedReturns t.expr body ∧
      (t.unfold o).Runs (.ok (if t.expr.isNestedConditional then
        some ⟨t, (DecisionTree.ofExpr false t.expr).depth, body, []⟩ else none)) [] := by
  refine ⟨_, DecisionTree.earlyReturn_ofExpr t.expr, ?_⟩
  unfold Trigger.unfold
  rw [hkind, unfoldReturn, apply_ite (Option.map _)]
  exact Logged.runs_pure _

theorem unfold_action_runs (o : Options) {t : Trigger} (hkind : t.kind ≠ .ret)
    (ht : t.expr.isPrintable = true) :
    ∃ body maker, unfoldAction o t.expr = .ok (body, maker) ∧
      (t.unfold o).Runs (.ok (some ⟨t, (DecisionTree.ofExpr true t.expr).depth, body,
        maker.elim [] (·.refusals)⟩)) (maker.elim [] (·.log)) := by
  obtain ⟨body, maker, hbody⟩ : ∃ body maker, unfoldAction o t.expr = .ok (body, maker) :=
    DecisionTree.ifChain_isOk (.inr (DecisionTree.guarded_ofExpr_isPrintable true ht)) {}
  refine ⟨body, maker, hbody, ?_⟩
  unfold Trigger.unfold
  split
  next h => exact absurd h hkind
  all_goals exact Logged.runs_lift_bind hbody (Logged.runs_tell_pure _ _)

theorem unfolds_return (o : Options) {t : Trigger} (hkind : t.kind = .ret)
    (ht : t.expr.isPrintable = true) : ∃ r? events, t.Unfolds o r? events := by
  obtain ⟨body, hreturns, hruns⟩ := unfold_return_runs o hkind
  refine ⟨_, [], hruns, nofun, ?_⟩
  intro r hr
  split at hr
  next => cases hr; exact ⟨rfl, filled_of_guardedReturns hreturns ht⟩
  next => cases hr

theorem unfolds_action (o : Options) {t : Trigger} (hkind : t.kind ≠ .ret)
    (ht : t.expr.isPrintable = true) : ∃ r? events, t.Unfolds o r? events := by
  obtain ⟨body, maker, hbody, hruns⟩ := unfold_action_runs o hkind ht
  have hlog : Log.AllFrom .switches (maker.elim [] (·.log)) := by
    refine DecisionTree.ifChain_log hbody ?_
    unfold Options.maker
    split <;> exact nofun
  refine ⟨_, _, hruns, hlog, ?_⟩
  rintro _ ⟨⟩
  exact ⟨rfl, DecisionTree.filled_of_ifChain (DecisionTree.filled_ofExpr true ht) hbody⟩

/-- **Unfolding a statement whose expression can be written does not fail.** -/
theorem unfolds_rewrite? (o : Options) {t : Trigger} (ht : t.expr.isPrintable = true) :
    ∃ events, t.Unfolds o (t.rewrite? o) events := by
  obtain ⟨r?, events, h⟩ : ∃ r? events, t.Unfolds o r? events := by
    by_cases hkind : t.kind = .ret
    · exact unfolds_return o hkind ht
    · exact unfolds_action o hkind ht
  have hrewrite : t.rewrite? o = r? := by rw [rewrite?, h.1.outcome]
  exact ⟨events, hrewrite ▸ h⟩

end Trigger

/-! ## A pass -/

/-- The replacements of statements that begin at or behind `covered`, each one covering its own
span: the loop of `unfoldOutermost` without its log. -/
def takeOutermost (o : Options) (covered : Int) : List Trigger → List Replacement
  | [] => []
  | t :: ts =>
    if t.site.start < covered then takeOutermost o covered ts
    else
      match t.rewrite? o with
      | none => takeOutermost o covered ts
      | some r => r :: takeOutermost o t.site.stop ts

theorem unfoldOutermost_runs (o : Options) {ts : List Trigger}
    (hts : ∀ t ∈ ts, t.expr.isPrintable = true) (covered : Int) :
    ∃ events, (unfoldOutermost o covered ts).Runs (.ok (takeOutermost o covered ts)) events ∧
      Log.AllFrom .switches events := by
  induction ts generalizing covered with
  | nil => exact ⟨[], Logged.runs_pure [], nofun⟩
  | cons t ts ih =>
    obtain ⟨ht, hts⟩ := List.forall_mem_cons.mp hts
    rw [unfoldOutermost, takeOutermost]
    split
    next => exact ih hts covered
    next =>
      obtain ⟨events, hruns, hevents, _⟩ := Trigger.unfolds_rewrite? o ht
      cases hr : t.rewrite? o with
      | none =>
        obtain ⟨events', hruns', hevents'⟩ := ih hts covered
        rw [hr] at hruns
        exact ⟨events ++ events', hruns.bind hruns',
          List.forall_mem_append.mpr ⟨hevents, hevents'⟩⟩
      | some r =>
        obtain ⟨events', hruns', hevents'⟩ := ih hts t.site.stop
        rw [hr] at hruns
        refine ⟨events ++ (events' ++ []), hruns.bind (hruns'.bind (Logged.runs_pure _)), ?_⟩
        rw [List.append_nil]
        exact List.forall_mem_append.mpr ⟨hevents, hevents'⟩

theorem takeOutermost_mem {o : Options} {ts : List Trigger}
    (hts : ∀ t ∈ ts, t.expr.isPrintable = true) {covered : Int} {r : Replacement}
    (hr : r ∈ takeOutermost o covered ts) :
    r.trigger ∈ ts ∧ r.trigger.rewrite? o = some r ∧ Filled (slotsOf r.body) := by
  induction ts generalizing covered with
  | nil => cases hr
  | cons t ts ih =>
    obtain ⟨ht, hts⟩ := List.forall_mem_cons.mp hts
    have hrest : ∀ covered, r ∈ takeOutermost o covered ts → r.trigger ∈ t :: ts ∧
        r.trigger.rewrite? o = some r ∧ Filled (slotsOf r.body) :=
      fun covered hr => (ih hts hr).imp_left (List.mem_cons_of_mem t)
    rw [takeOutermost] at hr
    split at hr
    next => exact hrest _ hr
    next =>
      split at hr
      next => exact hrest _ hr
      next r' hr' =>
        rcases List.mem_cons.mp hr with rfl | hr
        · obtain ⟨_, _, _, hfilled⟩ := Trigger.unfolds_rewrite? o ht
          obtain ⟨htrigger, hbody⟩ := hfilled r hr'
          exact ⟨htrigger ▸ List.mem_cons_self, htrigger.symm ▸ hr', hbody⟩
        · exact hrest _ hr

/-- No event tells that the passes are exhausted. -/
def Log.Quiet (log : Log) : Prop := ∀ e ∈ log, e.channel ≠ .passes

theorem replacements_runs (o : Options) {root : Node} {source : Bytes} {ts : List Trigger}
    (hcheck : root.check source = .ok ()) (hts : root.triggers source = .ok ts) :
    ∃ events, (replacements o root source).Runs (.ok (takeOutermost o (-1) ts)) events ∧
      Log.Quiet events := by
  obtain ⟨events, hruns, hevents⟩ :=
    unfoldOutermost_runs o (fun _ ht => Node.triggers_isPrintable hts ht) (-1)
  refine ⟨[.triggersFound ts.length] ++ events, ?_, List.forall_mem_append.mpr ⟨?_, ?_⟩⟩
  · exact Logged.runs_lift_bind hcheck
      (Logged.runs_lift_bind hts ((Logged.runs_tell _).bind hruns))
  · simp [Event.channel]
  · exact fun e he h => nomatch (hevents e he).symm.trans h

/-- The replacements of a source are found, or else the tree has a defect or an expression that
cannot be read. -/
theorem replacements_cases (o : Options) (root : Node) (source : Bytes) :
    (∃ ts, root.check source = .ok () ∧ root.triggers source = .ok ts) ∨
      ∃ e, (replacements o root source).Runs (.error e) [] := by
  cases hcheck : root.check source with
  | error e => exact .inr ⟨e, Logged.runs_lift_error hcheck⟩
  | ok _ =>
    cases hts : root.triggers source with
    | error e => exact .inr ⟨e, Logged.runs_lift_bind hcheck (Logged.runs_lift_error hts)⟩
    | ok ts => exact .inl ⟨ts, rfl, rfl⟩

/-- **A pass over a tree without a defect gives the edits of the statements that it picks**, if all
of these edits can be made. -/
theorem passEdits_runs (o : Options) {root : Node} {p : Progress} {ts : List Trigger}
    (hcheck : root.check p.source = .ok ()) (hts : root.triggers p.source = .ok ts) :
    ∃ events, (passEdits o root p).Runs (Except.map (fun edits => (edits,
        (takeOutermost o (-1) ts).foldl (fun report r => r.enter report) p.report))
          ((takeOutermost o (-1) ts).mapM (·.edit o.layout))) events ∧
      Log.Quiet events := by
  obtain ⟨events, hruns, hquiet⟩ := replacements_runs o hcheck hts
  refine ⟨events ++ [], hruns.bind ?_, by rwa [List.append_nil]⟩
  cases ((takeOutermost o (-1) ts).mapM (·.edit o.layout) : Except Error _) with
  | error e => exact Logged.runs_lift_error rfl
  | ok edits => exact Logged.runs_lift_bind rfl (Logged.runs_pure _)

theorem passEdits_cases (o : Options) (root : Node) (p : Progress) :
    (∃ ts, root.check p.source = .ok () ∧ root.triggers p.source = .ok ts) ∨
      ∃ e, (passEdits o root p).Runs (.error e) [] := by
  obtain hts | ⟨e, hruns⟩ := replacements_cases o root p.source
  · exact .inl hts
  · exact .inr ⟨e, hruns.bind_error⟩

end CondUnfold
