import CondUnfold.Proofs.FixedPoint

/-!
# Spans between characters

Where the spans of a tree begin and end between characters, every node has a text. Reading an
expression then fails only if a child is missing (`Node.toExpr_failsInTree`), and a pass puts texts
in the place of texts (`passEdits_isText`). A surrogate in the indent of the layout stops the first
pass that has an edit to make, so that no pass with a result comes before it (`Passed.eq_start`).
-/

namespace CondUnfold

open Except

open Utf8

/-! ## Edits -/

namespace Edit

/-- The edit puts a text in the place of a span between boundaries. -/
structure OnText (source : Bytes) (e : Edit) : Prop where
  start : isBoundary source e.start.toNat = true
  stop : isBoundary source e.stop.toNat = true
  replacement : IsText e.replacement

theorem patched_isText {source : Bytes} (hsource : IsText source) {position : Nat}
    {edits : List Edit} (horder : InOrder source position edits)
    (hedits : ∀ e ∈ edits, e.OnText source) (hrest : IsText (source.drop position)) :
    IsText (patched source position edits) := by
  induction horder with
  | nil => exact hrest
  | @cons position es e start stop hstart hstop hpos _ _ _ ih =>
    obtain ⟨he, hedits⟩ := List.forall_mem_cons.mp hedits
    have hboundary := he.start
    rw [hstart, Int.toNat_natCast] at hboundary
    rw [patched, List.drop_take, hstart, Int.toNat_natCast, hstop, Int.toNat_natCast]
    have hkept := hrest.take (isBoundary_drop hpos hboundary)
    have hafter := he.stop
    rw [hstop, Int.toNat_natCast] at hafter
    exact (hkept.append he.replacement).append (ih hedits (hsource.drop hafter))

end Edit

/-! ## Nodes -/

namespace Node

/-- The property holds of the node and of all nodes below it. -/
def All (P : Node → Prop) (n : Node) : Prop := ∀ m ∈ n.preorder, P m

instance (P : Node → Prop) [DecidablePred P] : DecidablePred (All P) := fun n =>
  inferInstanceAs (Decidable (∀ m ∈ n.preorder, P m))

variable {P : Node → Prop} {n c : Node}

namespace All

theorem self (h : n.All P) : P n := h n (by rw [preorder_eq]; exact List.mem_cons_self)

theorem child (h : n.All P) (hc : c ∈ n.children) : c.All P :=
  fun m hm => h m (mem_preorder_of_child hc hm)

theorem operand (h : n.All P) (hc : c ∈ n.operands) : c.All P :=
  h.child (List.mem_filter.mp (List.mem_filter.mp hc).1).1

theorem unwrap (h : n.All P) : n.unwrap.All P := by
  induction n using Node.unwrap.induct with
  | case1 n hkind m hn ih =>
    rw [Node.unwrap, if_pos hkind]
    split
    next m' hm =>
      cases (List.cons.inj (hn.symm.trans hm)).1
      exact ih (h.operand (hn ▸ List.mem_singleton_self m))
    next => exact h
  | case2 n hkind hn =>
    rw [Node.unwrap, if_pos hkind]
    split
    next m hm => exact absurd hm (hn m)
    next => exact h
  | case3 n hkind =>
    rw [Node.unwrap, if_neg hkind]
    exact h

theorem walkPending {vs : List Visit} (h : ∀ v ∈ vs, v.node.All P) :
    ∀ v ∈ Node.walkPending vs, v.node.All P := by
  induction vs using Node.walkPending.induct with
  | case1 =>
    rw [Node.walkPending]
    exact List.forall_mem_nil _
  | case2 v pending ih =>
    obtain ⟨hv, hpending⟩ := List.forall_mem_cons.mp h
    rw [Node.walkPending]
    refine List.forall_mem_cons.mpr ⟨hv, ih ?_⟩
    refine List.forall_mem_append.mpr ⟨?_, hpending⟩
    intro w hw
    obtain ⟨c, hc, rfl⟩ := List.mem_map.mp hw
    exact hv.child (List.mem_filter.mp hc).1

theorem visits (h : n.All P) : ∀ v ∈ n.visits, v.node.All P :=
  walkPending (by simpa using h)

end All

end Node

/-! ## Reading expressions -/

/-- The cause of the failure lies in the syntax tree: it has a defect, or a node lacks a child. -/
inductive Error.InTree : Error → Prop where
  | malformed (defect : Defect) (line column : Nat) : InTree (.malformed defect line column)
  | missingChild : InTree .missingChild

/-- The work fails only if the cause lies in the syntax tree. -/
def FailsInTree {α : Type} (x : Except Error α) : Prop := ∀ e, x = .error e → e.InTree

namespace FailsInTree

variable {α β : Type}

theorem ok (a : α) : FailsInTree (.ok a : Except Error α) := nofun

theorem bind {x : Except Error α} {f : α → Except Error β} (hx : FailsInTree x)
    (hf : ∀ a, x = .ok a → FailsInTree (f a)) : FailsInTree (x >>= f) := by
  intro e h
  cases x with
  | error e' => cases h; exact hx e rfl
  | ok a => exact hf a rfl e h

theorem mapM {f : α → Except Error β} {as : List α} (h : ∀ a ∈ as, FailsInTree (f a)) :
    FailsInTree (as.mapM f) := by
  induction as with
  | nil => exact .ok []
  | cons a as ih =>
    obtain ⟨ha, has⟩ := List.forall_mem_cons.mp h
    rw [List.mapM_cons]
    exact ha.bind fun _ _ => (ih has).bind fun _ _ => .ok _

end FailsInTree

namespace Node

/-- The span of the node lies between characters. -/
structure OnText (source : Bytes) (n : Node) : Prop where
  start : isBoundary source n.start = true
  stop : isBoundary source n.stop = true

instance (source : Bytes) : DecidablePred (OnText source) := fun n =>
  decidable_of_iff (isBoundary source n.start = true ∧ isBoundary source n.stop = true)
    ⟨fun h => ⟨h.1, h.2⟩, fun h => ⟨h.start, h.stop⟩⟩

/-- The bytes of the node are a text. -/
def HasText (source : Bytes) (n : Node) : Prop := ∃ s, n.text source = .ok s

/-- What the node gives is there, unless the cause lies in the tree. -/
structure Reading.FailsInTree (r : Reading) : Prop where
  expr : CondUnfold.FailsInTree r.expr
  items : CondUnfold.FailsInTree r.items

variable {source : Bytes} {n root : Node} {parts : List Part}

theorem HasText.failsInTree (h : n.HasText source) : FailsInTree (n.text source) := by
  obtain ⟨s, hs⟩ := h
  rw [hs]
  exact .ok s

theorem part_failsInTree (parts : List Part) (role : String) : FailsInTree (part parts role) := by
  unfold part
  split
  next => exact .ok _
  next =>
    rintro _ ⟨⟩
    exact .missingChild

theorem partExpr_failsInTree (h : ∀ p ∈ parts, p.reading.FailsInTree) (role : String) :
    FailsInTree (partExpr parts role) :=
  (part_failsInTree parts role).bind fun p hp => (h p (part_mem hp)).expr

theorem flatItems_failsInTree (h : ∀ p ∈ parts, p.reading.FailsInTree) :
    FailsInTree (flatItems parts) := by
  induction parts with
  | nil => exact .ok []
  | cons p parts ih =>
    obtain ⟨hp, hparts⟩ := List.forall_mem_cons.mp h
    refine hp.expr.bind fun e _ => (ih hparts).bind fun rest _ => ?_
    split <;> exact .ok _

theorem raw_failsInTree (h : n.HasText source) : FailsInTree (raw source n) :=
  h.failsInTree.bind fun _ _ => .ok _

theorem assemble_failsInTree (hn : n.HasText source)
    (hparts : ∀ p ∈ parts, p.node.HasText source ∧ p.reading.FailsInTree) :
    FailsInTree (assemble source n parts) := by
  have hoperands : ∀ p ∈ operandParts parts, p.reading.FailsInTree :=
    fun p hp => (hparts p (operandParts_subset parts hp)).2
  have hpart := partExpr_failsInTree fun p hp => (hparts p hp).2
  unfold assemble
  split
  · split
    next p hp => exact (hoperands p (hp ▸ List.mem_singleton_self p)).expr
    next => exact (FailsInTree.mapM fun p hp => (hoperands p hp).expr).bind fun _ _ => .ok _
  · exact (hpart _).bind fun _ _ => (hpart _).bind fun _ _ => (hpart _).bind fun _ _ => .ok _
  · exact (part_failsInTree _ _).bind fun _ _ =>
      (hpart _).bind fun _ _ => (hpart _).bind fun _ _ => .ok _
  · exact (part_failsInTree _ _).bind fun _ _ => (hpart _).bind fun _ _ => .ok _
  · split
    next => exact raw_failsInTree hn
    next args hargs =>
      split
      next =>
        exact (hpart _).bind fun _ _ =>
          (hparts args (part_mem hargs)).2.items.bind fun _ _ => .ok _
      next => exact raw_failsInTree hn
  · exact (hpart _).bind fun _ _ => (part_failsInTree _ _).bind fun p hp =>
      (hparts p (part_mem hp)).1.failsInTree.bind fun _ _ => .ok _
  · exact (hpart _).bind fun _ _ => (hpart _).bind fun _ _ => .ok _
  · exact (flatItems_failsInTree hoperands).bind fun _ _ => .ok _
  · split
    · exact hn.failsInTree.bind fun _ _ => .ok _
    · split
      · exact hn.failsInTree.bind fun _ _ => .ok _
      · exact raw_failsInTree hn

mutual

theorem read_failsInTree (source : Bytes) :
    (n : Node) → n.All (HasText source) → (read source n).FailsInTree
  | ⟨kind, start, stop, role, named, missing, mark, children⟩, h => by
    have hparts := readAll_failsInTree source children fun c hc => h.child hc
    rw [read]
    exact ⟨assemble_failsInTree h.self hparts,
      .mapM fun p hp => (hparts p (operandParts_subset _ hp)).2.expr⟩

theorem readAll_failsInTree (source : Bytes) :
    (ns : List Node) → (∀ n ∈ ns, n.All (HasText source)) →
      ∀ p ∈ readAll source ns, p.node.HasText source ∧ p.reading.FailsInTree
  | [], _ => nofun
  | n :: ns, h => by
    obtain ⟨hn, hns⟩ := List.forall_mem_cons.mp h
    rw [readAll]
    exact List.forall_mem_cons.mpr
      ⟨⟨hn.self, read_failsInTree source n hn⟩, readAll_failsInTree source ns hns⟩

end

/-- **Where every node has a text, reading an expression fails only for want of a child.** -/
theorem toExpr_failsInTree (h : n.All (HasText source)) : FailsInTree (n.toExpr source) :=
  (read_failsInTree source n h).expr

theorem triggers_failsInTree (h : root.All (HasText source)) :
    FailsInTree (root.triggers source) := by
  refine (FailsInTree.mapM fun v hv => ?_).bind fun _ _ => .ok _
  unfold Visit.trigger?
  split
  next => exact .ok none
  next kind e he =>
    obtain ⟨⟨first, hfirst, rfl⟩, _⟩ := trigger?_eq_some he
    exact (toExpr_failsInTree ((h.visits v hv).operand hfirst).unwrap).bind fun _ _ => .ok _

theorem check_failsInTree (root : Node) (source : Bytes) : FailsInTree (root.check source) := by
  unfold check
  split
  next =>
    split <;>
    · rintro _ ⟨⟩
      exact .malformed _ _ _
  next => exact .ok ()

/-- A node whose span lies between characters of a text has a text. -/
theorem OnText.hasText (hsource : IsText source) (h : n.OnText source) (hspan : n.start ≤ n.stop) :
    n.HasText source := by
  obtain ⟨s, hs⟩ := hsource.slice h.start h.stop hspan
  exact ⟨s, by rw [text, bytes, hs]⟩

theorem WellNested.all_span (h : root.WellNested) : root.All fun n => n.start ≤ n.stop := by
  induction h with
  | @intro n span _ _ _ ih =>
    intro m hm
    rw [preorder_eq] at hm
    rcases List.mem_cons.mp hm with rfl | hm
    · exact span
    · obtain ⟨c, hc, hm⟩ := List.mem_flatMap.mp hm
      exact ih c hc m hm

/-- **The nodes of a well nested tree with spans between characters have texts.** -/
theorem WellNested.all_hasText (hroot : root.WellNested) (hsource : IsText source)
    (hspans : root.All (OnText source)) : root.All (HasText source) :=
  fun n hn => (hspans n hn).hasText hsource (hroot.all_span n hn)

end Node

/-! ## Passes -/

variable {o : Options} {root : Node} {source : Bytes}

theorem Replacement.edit_onText {r : Replacement} {layout : Layout} {e : Edit} {n : Node}
    (h : r.edit layout = .ok e) (hstart : r.trigger.site.start = n.start)
    (hstop : r.trigger.site.stop = n.stop) (hn : n.OnText source) : e.OnText source := by
  obtain ⟨text, _, rfl⟩ := Site.edit_eq_ok.mp h
  refine ⟨?_, ?_, isText_encode text⟩
  · rw [hstart, Int.toNat_natCast]
    exact hn.start
  · rw [hstop, Int.toNat_natCast]
    exact hn.stop

theorem takeOutermost_isText (hsource : IsText source) (hroot : root.WellNested)
    (hspans : root.All (Node.OnText source)) {ts : List Trigger}
    (hts : root.triggers source = .ok ts) {edits : List Edit}
    (hedits : (takeOutermost o (-1) ts).mapM (·.edit o.layout) = .ok edits) :
    ∃ source', Edit.applyAll edits source = .ok source' ∧ IsText source' := by
  have hprintable := fun t ht => Node.triggers_isPrintable (t := t) hts ht
  have hbound : root.stop ≤ source.length :=
    of_decide_eq_true (Bool.and_eq_true_iff.mp hspans.self.stop).1
  have horder : Edit.InOrder source 0 edits := takeOutermost_inOrder hprintable
    (fun t ht => Node.triggers_inBounds hroot hbound hts ht) hedits
  refine ⟨_, Edit.applyAll_eq_patched horder, Edit.patched_isText hsource horder ?_ hsource⟩
  intro e he
  obtain ⟨r, hr, hedit⟩ := mapM_mem hedits he
  obtain ⟨v, hv, _, _, _, hsite⟩ :=
    Node.triggers_found hts (takeOutermost_mem hprintable hr).1
  exact Replacement.edit_onText hedit (congrArg Site.start hsite) (congrArg Site.stop hsite)
    (hspans.visits v hv).self

/-- **A pass makes a text of a text.** -/
theorem passEdits_isText (hsource : IsText source) (hroot : root.WellNested)
    (hspans : root.All (Node.OnText source)) {report report' : Report} {edits : List Edit}
    {events : Log}
    (hpass : (passEdits o root ⟨source, report⟩).outcome = (.ok (edits, report'), events)) :
    ∃ source', Edit.applyAll edits source = .ok source' ∧ IsText source' := by
  obtain ⟨ts, _, hts, hedits, _⟩ := passEdits_taken hpass
  exact takeOutermost_isText hsource hroot hspans hts hedits

/-- The tree cannot be unfolded for a cause that lies in it. -/
def Node.Fails (root : Node) (source : Bytes) (e : Error) : Prop :=
  e.InTree ∧ (root.check source = .error e ∨ root.triggers source = .error e)

theorem replacements_fails (o : Options) (h : root.All (Node.HasText source)) :
    (∃ ts, root.check source = .ok () ∧ root.triggers source = .ok ts) ∨
      ∃ e, root.Fails source e ∧ (replacements o root source).Runs (.error e) [] := by
  cases hcheck : root.check source with
  | error e =>
    exact .inr ⟨e, ⟨root.check_failsInTree source e hcheck, .inl hcheck⟩,
      Logged.runs_lift_error hcheck⟩
  | ok _ =>
    cases hts : root.triggers source with
    | error e =>
      exact .inr ⟨e, ⟨Node.triggers_failsInTree h e hts, .inr hts⟩,
        Logged.runs_lift_bind hcheck (Logged.runs_lift_error hts)⟩
    | ok ts => exact .inl ⟨ts, rfl, rfl⟩

/-- The bytes after a number of passes, each of which had something to edit. -/
inductive Passed (o : Options) (parse : Nat → Bytes → Node) (source : Bytes) :
    Nat → Bytes → Prop where
  | start : Passed o parse source 0 source
  | pass {k : Nat} {bytes bytes' : Bytes} {report report' : Report} {edits : List Edit}
    {events : Log} : Passed o parse source k bytes →
    (passEdits o (parse k bytes) ⟨bytes, report⟩).outcome = (.ok (edits, report'), events) →
    edits ≠ [] → Edit.applyAll edits bytes = .ok bytes' → Passed o parse source (k + 1) bytes'

/-- The trees that the parser gives for texts are well nested and have spans between characters. -/
def SpansText (parse : Nat → Bytes → Node) : Prop :=
  ∀ k bytes, IsText bytes →
    (parse k bytes).WellNested ∧ (parse k bytes).All (Node.OnText bytes)

variable {parse : Nat → Bytes → Node}

theorem Passed.isText (hparse : SpansText parse) (hsource : IsText source) {k : Nat}
    {bytes : Bytes} (h : Passed o parse source k bytes) : IsText bytes := by
  induction h with
  | start => exact hsource
  | pass _ hpass _ happly ih =>
    obtain ⟨hroot, hspans⟩ := hparse _ _ ih
    obtain ⟨_, happly', htext⟩ := passEdits_isText ih hroot hspans hpass
    cases happly'.symm.trans happly
    exact htext

theorem runPasses_zero {done : Nat} {p : Progress} {ts : List Trigger}
    (hcheck : (parse done p.source).check p.source = .ok ())
    (hts : (parse done p.source).triggers p.source = .ok ts) :
    ∃ events, (runPasses o parse 0 done p).Runs (.ok p) events := by
  obtain ⟨events, hruns, _⟩ := replacements_runs o hcheck hts
  by_cases htaken : takeOutermost o (-1) ts = []
  · rw [htaken] at hruns
    exact ⟨events ++ [], hruns.bind (Logged.runs_pure p)⟩
  · refine ⟨events ++ [.passesExhausted (nameOr "<source>" p.report.name) o.maxPasses],
      hruns.bind ?_⟩
    rw [List.isEmpty_eq_false_iff.mpr htaken]
    exact Logged.runs_tell_pure _ p

/-- After passes, the next one can be made, and makes a text of a text, or else the tree fails. -/
theorem Passed.pass_or_fails (hparse : SpansText parse) (hsource : IsText source) {k : Nat}
    {bytes : Bytes} (h : Passed o parse source k bytes) :
    (∃ ts, (parse k bytes).check bytes = .ok () ∧ (parse k bytes).triggers bytes = .ok ts ∧
      ∀ edits, (takeOutermost o (-1) ts).mapM (·.edit o.layout) = .ok edits →
        ∃ bytes', Edit.applyAll edits bytes = .ok bytes' ∧ IsText bytes') ∨
      ∃ e, (parse k bytes).Fails bytes e ∧
        (replacements o (parse k bytes) bytes).Runs (.error e) [] := by
  have htext := h.isText hparse hsource
  obtain ⟨hroot, hspans⟩ := hparse k bytes htext
  refine (replacements_fails o (hroot.all_hasText htext hspans)).imp_left ?_
  rintro ⟨ts, hcheck, hts⟩
  exact ⟨ts, hcheck, hts, fun _ hedits => takeOutermost_isText htext hroot hspans hts hedits⟩

/-- With a surrogate in the indent no pass edits anything. -/
theorem Passed.eq_start {k : Nat} {bytes : Bytes} (h : Passed o parse source k bytes)
    (hindent : ¬ o.layout.indent.IsPlain) : k = 0 ∧ bytes = source := by
  cases h with
  | start => exact ⟨rfl, rfl⟩
  | pass _ hpass hne _ =>
    obtain ⟨_, _, _, hedits, hplain⟩ := passEdits_taken hpass
    exact absurd (hplain.resolve_left (mt (edits_eq_nil_iff hedits).mpr hne)) hindent

/-- What stops a run of passes: a tree on the way that cannot be unfolded, or a surrogate in the
indent. -/
def Stops (o : Options) (parse : Nat → Bytes → Node) (source : Bytes) (e : Error) : Prop :=
  ∃ k bytes, Passed o parse source k bytes ∧ ((parse k bytes).Fails bytes e ∨
    e = .notEncodable ∧ ¬ o.layout.indent.IsPlain ∧ Pending o (parse k bytes) bytes)

theorem Stops.fails {e : Error} (h : Stops o parse source e) (he : e ≠ .notEncodable) :
    ∃ k bytes, Passed o parse source k bytes ∧ (parse k bytes).Fails bytes e := by
  obtain ⟨k, bytes, hpassed, hfails | ⟨rfl, _⟩⟩ := h
  · exact ⟨k, bytes, hpassed, hfails⟩
  · exact absurd rfl he

theorem Stops.pending (h : Stops o parse source .notEncodable) :
    ¬ o.layout.indent.IsPlain ∧ Pending o (parse 0 source) source := by
  obtain ⟨k, bytes, hpassed, ⟨hcause, _⟩ | ⟨_, hindent, hpending⟩⟩ := h
  · cases hcause
  · obtain ⟨rfl, rfl⟩ := hpassed.eq_start hindent
    exact ⟨hindent, hpending⟩

/-- **A run of passes ends with a text, or is stopped.** -/
theorem runPasses_passed (hparse : SpansText parse) (hsource : IsText source) (left done : Nat)
    {p : Progress} (hp : Passed o parse source done p.source) :
    ∃ r events, (runPasses o parse left done p).Runs r events ∧
      (∀ p', r = .ok p' → ∃ k, Passed o parse source k p'.source) ∧
      ∀ e, r = .error e → Stops o parse source e := by
  -- on the passes that are left; that the passes so far have led here is the invariant
  induction left generalizing done p with
  | zero =>
    obtain ⟨ts, hcheck, hts, _⟩ | ⟨e, hfails, hruns⟩ := hp.pass_or_fails hparse hsource
    · obtain ⟨events, hruns⟩ := runPasses_zero hcheck hts
      refine ⟨.ok p, events, hruns, ?_, nofun⟩
      rintro _ ⟨⟩
      exact ⟨done, hp⟩
    · refine ⟨.error e, [], hruns.bind_error, nofun, ?_⟩
      rintro _ ⟨⟩
      exact ⟨done, p.source, hp, .inl hfails⟩
  | succ left ih =>
    obtain ⟨ts, hcheck, hts, hpass⟩ | ⟨e, hfails, hruns⟩ := hp.pass_or_fails hparse hsource
    · obtain ⟨events, _, ⟨edits, hedits, _, hruns⟩ | ⟨hsome, hindent, hruns⟩⟩ :=
        passEdits_ends o (p := p) hcheck hts
      · by_cases hne : edits = []
        · subst hne
          refine ⟨.ok p, events ++ [], hruns.bind (Logged.runs_pure p), ?_, nofun⟩
          rintro _ ⟨⟩
          exact ⟨done, hp⟩
        · obtain ⟨source', happly, _⟩ := hpass edits hedits
          obtain ⟨r, events', hruns', hends⟩ :=
            ih (done + 1) (p := ⟨source', _⟩) (hp.pass hruns.outcome hne happly)
          exact ⟨r, events ++ events', runPasses_pass hruns hne happly hruns', hends⟩
      · refine ⟨.error .notEncodable, events, hruns.bind_error, nofun, ?_⟩
        rintro _ ⟨⟩
        exact ⟨done, p.source, hp, .inr ⟨rfl, hindent, ts, hcheck, hts, hsome⟩⟩
    · refine ⟨.error e, [], hruns.bind_error.bind_error, nofun, ?_⟩
      rintro _ ⟨⟩
      exact ⟨done, p.source, hp, .inl hfails⟩

theorem unfoldBy_passed (hparse : SpansText parse) (o : Options) (name : Option String)
    (s : String) :
    ∃ r log, unfoldBy parse o name s = (r, log) ∧
      (∀ u, r = .ok u → ∃ k, Passed o parse (encode s) k (encode u.source)) ∧
      ∀ e, r = .error e → Stops o parse (encode s) e := by
  have hsource := isText_encode s
  obtain ⟨r, log, hruns, hok, herror⟩ := runPasses_passed (o := o) hparse hsource
    o.maxPasses.toNat 0 (p := ⟨encode s, { name }⟩) .start
  cases r with
  | error e =>
    refine ⟨.error e, log, hruns.bind_error.outcome, nofun, ?_⟩
    rintro _ ⟨⟩
    exact herror e rfl
  | ok p =>
    obtain ⟨k, hpassed⟩ := hok p rfl
    obtain ⟨result, hresult⟩ := hpassed.isText hparse hsource
    refine ⟨_, log, unfoldBy_of_runs hruns hresult, ?_, nofun⟩
    rintro _ ⟨⟩
    exact ⟨k, (encode_of_decode? hresult).symm ▸ hpassed⟩

/-- A run in which the first pass fails. -/
theorem unfoldBy_of_passEdits_error {name : Option String} {s : String} {e : Error} {events : Log}
    (h : (passEdits o (parse 0 (encode s)) ⟨encode s, { name }⟩).Runs (.error e) events) :
    unfoldBy parse o name s = (.error e, events) := by
  obtain ⟨left, hleft⟩ : ∃ left, o.maxPasses.toNat = left + 1 :=
    Nat.exists_eq_add_one.mpr (Int.lt_toNat.mpr o.maxPasses_pos)
  have hruns : (runPasses o parse o.maxPasses.toNat 0 ⟨encode s, { name }⟩).Runs (.error e)
      events := by
    rw [hleft]
    exact h.bind_error
  exact hruns.bind_error.outcome

/-- **Unfolding a text does not fail on its encoding**, unless a surrogate stands in the indent. The
parser may be any one whose trees for texts are well nested, with spans between characters. Then
after any number of passes the bytes are a text and every node of their tree has a text. Unfolding
ends with the text of such bytes, unless one of the trees on the way has a defect or lacks a child,
or the indent has a surrogate in it and the first pass has something to replace. -/
theorem unfoldBy_keeps_text (hparse : SpansText parse) (o : Options) (name : Option String)
    (s : String) :
    (∀ k bytes, Passed o parse (encode s) k bytes →
      IsText bytes ∧ (parse k bytes).All (Node.HasText bytes)) ∧
    ∃ r log, unfoldBy parse o name s = (r, log) ∧
      (∀ u, r = .ok u → ∃ k, Passed o parse (encode s) k (encode u.source)) ∧
      (∀ e, r = .error e → e ≠ .notEncodable →
        ∃ k bytes, Passed o parse (encode s) k bytes ∧ (parse k bytes).Fails bytes e) ∧
      (r = .error .notEncodable ↔
        ¬ o.layout.indent.IsPlain ∧ Pending o (parse 0 (encode s)) (encode s)) := by
  have hsource := isText_encode s
  constructor
  · intro k bytes h
    have htext := h.isText hparse hsource
    obtain ⟨hroot, hspans⟩ := hparse k bytes htext
    exact ⟨htext, hroot.all_hasText htext hspans⟩
  · obtain ⟨r, log, hunfold, hok, herror⟩ := unfoldBy_passed hparse o name s
    refine ⟨r, log, hunfold, hok, fun e he hne => (herror e he).fails hne,
      fun he => (herror _ he).pending, ?_⟩
    rintro ⟨hindent, hpending⟩
    obtain ⟨events, hfail⟩ := hpending.passEdits_fails (p := ⟨encode s, { name }⟩) hindent
    exact congrArg Prod.fst (hunfold.symm.trans (unfoldBy_of_passEdits_error hfail))

namespace Sample

/-- A parser for one text and for what has nothing to unfold. -/
def parserFor (text : String) (root : Node) (_ : Nat) (source : Bytes) : Node :=
  if source = encode text then root else node "program" 0 source.length []

theorem parserFor_text (text : String) (root : Node) :
    parserFor text root 0 (encode text) = root :=
  if_pos rfl

variable {text : String} {root : Node}

theorem parserFor_spansText (hroot : root.WellNested)
    (hspans : root.All (Node.OnText (encode text))) : SpansText (parserFor text root) := by
  intro k bytes htext
  unfold parserFor
  split
  next h => exact ⟨hroot, h ▸ hspans⟩
  next =>
    refine ⟨.intro (Nat.zero_le _) nofun .nil nofun, ?_⟩
    intro n hn
    cases List.mem_singleton.mp hn
    exact ⟨isBoundary_zero htext, isBoundary_length bytes⟩

theorem parserFor_unfolds {ts : List Trigger} (hcheck : root.check (encode text) = .ok ())
    (hts : root.triggers (encode text) = .ok ts) (k : Nat) (bytes : Bytes) :
    (parserFor text root k bytes).check bytes = .ok () ∧
      ∃ ts, (parserFor text root k bytes).triggers bytes = .ok ts := by
  unfold parserFor
  split
  next h =>
    subst h
    exact ⟨hcheck, ts, hts⟩
  next =>
    have hvisits : (node "program" 0 bytes.length []).visits =
        [⟨none, node "program" 0 bytes.length []⟩] := by
      rw [Node.visits, Node.walkPending]
      change _ :: Node.walkPending [] = _
      rw [Node.walkPending]
    refine ⟨rfl, [], ?_⟩
    rw [Node.triggers, hvisits]
    rfl

end Sample

namespace Accented

open FunctionArms Sample

def given : String := "é ? b && c : d"

/-- The text after a pass. -/
def once : String :=
  ifHead "é" ++ "\n  " ++ ifHead "b" ++ "\n    c;\n  " ++ blockEnd ++ "\n" ++ elseHead ++
    "\n  d;\n" ++ blockEnd

def program : Node :=
  node "program" 0 15 [node "expression_statement" 0 15 [node "ternary_expression" 0 15
    [part "condition" (node "identifier" 0 2), part "consequence" (logical "&&" 5),
      part "alternative" (word 14)]]]

theorem passEdits_given : (passEdits {} program ⟨encode given, {}⟩).outcome =
    (.ok ([⟨0, 15, encode once⟩], { records := [⟨"if-chain", "conditional", 1, 1, 2⟩] }),
      [.triggersFound 1]) := by
  decide +kernel

/-- The pass goes over a letter of two bytes. -/
theorem unfold_given_keeps_text :
    SpansText (parserFor given program) ∧
      Passed {} (parserFor given program) (encode given) 1 (encode once) ∧ IsText (encode once) ∧
      program.All (Node.HasText (encode given)) ∧
      ∃ u log, unfoldBy (parserFor given program) {} none given = (.ok u, log) := by
  have hparse : SpansText (parserFor given program) :=
    parserFor_spansText (by decide) (by decide +kernel)
  have hpassed : Passed {} (parserFor given program) (encode given) 1 (encode once) := by
    have hpass := passEdits_given
    rw [← parserFor_text given program] at hpass
    exact .pass .start hpass (List.cons_ne_nil _ _)
      ((Edit.applyAll_singleton _ _).trans (congrArg Except.ok (by decide +kernel)))
  obtain ⟨htexts, r, log, hunfold, _, herror, hsurrogate⟩ :=
    unfoldBy_keeps_text hparse {} none given
  have hroot := (htexts 0 _ .start).2
  rw [parserFor_text] at hroot
  refine ⟨hparse, hpassed, (htexts 1 _ hpassed).1, hroot, ?_⟩
  cases r with
  | ok u => exact ⟨u, log, hunfold⟩
  | error e =>
    have hplain : e ≠ .notEncodable := by
      rintro rfl
      exact (hsurrogate.mp rfl).1 (WideText.isPlain_ofString _)
    obtain ⟨k, bytes, _, _, hfails⟩ := herror e rfl hplain
    obtain ⟨ts, hcheck, hts, _⟩ := passEdits_taken passEdits_given
    obtain ⟨hcheck, ts, hts⟩ := parserFor_unfolds hcheck hts k bytes
    rcases hfails with h | h
    · cases hcheck.symm.trans h
    · cases hts.symm.trans h

end Accented

namespace LoneSurrogate

open Sample

def given : String := "a && b();"

def program : Node :=
  node "program" 0 9 [node "expression_statement" 0 9 [node "binary_expression" 0 8
    [part "left" (word 0), part "operator" (token "&&" 2 4),
      part "right" (call (word 5) 8 [token "(" 6 7, token ")" 7 8])]]]

/-- The indent is the surrogate U+DCFF. -/
def layout : Layout := { indent := [.surrogate ⟨0x4FF, by decide⟩] }

/-- The text can be decoded and all spans lie between characters, but what would take the place of
the statement has no encoding. -/
theorem unfold_given_not_encodable :
    SpansText (parserFor given program) ∧
      unfoldBy (parserFor given program) { layout } none given =
        (.error .notEncodable, [.triggersFound 1]) := by
  refine ⟨parserFor_spansText (by decide) (by decide +kernel), unfoldBy_of_passEdits_error ?_⟩
  apply passEdits_runs_outcome
  decide +kernel

end LoneSurrogate
end CondUnfold
