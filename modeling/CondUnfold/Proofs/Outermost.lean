import CondUnfold.Proofs.Encodable
import CondUnfold.Proofs.Splice
import CondUnfold.Proofs.Walk

/-!
# The statements that a pass edits

In a well nested tree a node that is visited later lies inside an earlier one or behind it
(`Node.WellNested.walk_follows`). So the loop that skips what begins before the end of the last
statement it took skips only what lies inside that statement (`takeOutermost_covers`), and what it
takes stands in order and does not overlap (`takeOutermost_inOrder`).
-/

namespace CondUnfold

open Except

namespace Site

/-- The site has a span in the source. -/
def InBounds (source : Bytes) (s : Site) : Prop :=
  0 ≤ s.start ∧ s.start ≤ s.stop ∧ s.stop ≤ source.length

/-- The span of the site lies inside that of another one. -/
def Within (s s' : Site) : Prop := s'.start ≤ s.start ∧ s.stop ≤ s'.stop

/-- The second span does not begin before the first one, and lies inside it or behind it. -/
def Follows (s s' : Site) : Prop := s.start ≤ s'.start ∧ (s.stop ≤ s'.start ∨ s'.stop ≤ s.stop)

end Site

/-! ## Spans of nodes -/

namespace Node

/-- The spans of the tree begin before they end, those of children lie inside that of their parent,
and siblings stand in order and apart. -/
inductive WellNested : Node → Prop where
  | intro {n : Node} (span : n.start ≤ n.stop)
    (inside : ∀ c ∈ n.children, n.start ≤ c.start ∧ c.stop ≤ n.stop)
    (apart : n.children.Pairwise fun c d => c.stop ≤ d.start)
    (children : ∀ c ∈ n.children, WellNested c) : WellNested n

mutual

/-- Is the tree well nested? -/
def isWellNested : Node → Bool
  | ⟨_, start, stop, _, _, _, _, children⟩ =>
    decide (start ≤ stop) && children.all (fun c => start ≤ c.start && c.stop ≤ stop) &&
      decide (children.Pairwise fun c d => c.stop ≤ d.start) && areWellNested children

/-- Are all trees of a list well nested? -/
def areWellNested : List Node → Bool
  | [] => true
  | n :: ns => n.isWellNested && areWellNested ns

end

mutual

theorem isWellNested_iff : (n : Node) → (n.isWellNested ↔ n.WellNested)
  | ⟨kind, start, stop, role, named, missing, mark, children⟩ => by
    simp only [isWellNested, Bool.and_eq_true, decide_eq_true_eq, List.all_eq_true,
      areWellNested_iff children]
    constructor
    · rintro ⟨⟨⟨span, inside⟩, apart⟩, children⟩
      exact .intro span inside apart children
    · rintro ⟨span, inside, apart, children⟩
      exact ⟨⟨⟨span, inside⟩, apart⟩, children⟩

theorem areWellNested_iff : (ns : List Node) → (areWellNested ns ↔ ∀ n ∈ ns, n.WellNested)
  | [] => by simp [areWellNested]
  | n :: ns => by
    rw [areWellNested, Bool.and_eq_true, isWellNested_iff n, areWellNested_iff ns,
      List.forall_mem_cons]

end

instance : DecidablePred WellNested := fun n => decidable_of_iff _ n.isWellNested_iff

variable {source : Bytes} {n root : Node} {parent : Option String} {ts : List Trigger}

namespace WellNested

theorem walk_inside (h : n.WellNested) {w : Visit} (hw : w ∈ Visit.walk ⟨parent, n⟩) :
    n.start ≤ w.node.start ∧ w.node.start ≤ w.node.stop ∧ w.node.stop ≤ n.stop := by
  induction h generalizing parent with
  | @intro n span inside _ _ ih =>
    rw [Visit.walk_eq] at hw
    rcases List.mem_cons.mp hw with rfl | hw
    · exact ⟨Nat.le_refl _, span, Nat.le_refl _⟩
    · obtain ⟨_, hbelow, hw⟩ := List.mem_flatMap.mp hw
      obtain ⟨c, hc, rfl⟩ := List.mem_map.mp hbelow
      have hc : c ∈ n.children := (List.mem_filter.mp hc).1
      obtain ⟨hstart, hle, hstop⟩ := ih c hc hw
      obtain ⟨hstart', hstop'⟩ := inside c hc
      exact ⟨Nat.le_trans hstart' hstart, hle, Nat.le_trans hstop hstop'⟩

/-- **A node that is visited later lies inside an earlier one or behind it.** -/
theorem walk_follows (source : Bytes) (h : n.WellNested) :
    (Visit.walk ⟨parent, n⟩).Pairwise fun w w' => (w.site source).Follows (w'.site source) := by
  have hroot := h
  induction h generalizing parent with
  | @intro n _ _ apart children ih =>
    have hmem : ∀ c ∈ n.namedChildren, c ∈ n.children := fun c hc => (List.mem_filter.mp hc).1
    rw [Visit.walk_eq]
    refine List.pairwise_cons.mpr ⟨fun w hw => ?_, List.pairwise_flatMap.mpr ⟨?_, ?_⟩⟩
    · have hw : w ∈ Visit.walk ⟨parent, n⟩ := by
        rw [Visit.walk_eq]
        exact List.mem_cons_of_mem _ hw
      obtain ⟨hstart, _, hstop⟩ := hroot.walk_inside hw
      exact ⟨Int.ofNat_le.mpr hstart, .inr (Int.ofNat_le.mpr hstop)⟩
    · intro v hv
      obtain ⟨c, hc, rfl⟩ := List.mem_map.mp hv
      exact ih c (hmem c hc) (children c (hmem c hc))
    · -- what lies below one child ends before anything below the next one begins
      rw [Visit.below, List.pairwise_map]
      refine (apart.filter _).imp_of_mem fun {c d} hc hd hcd w hw w' hw' => ?_
      obtain ⟨_, hle, hstop⟩ := (children c (hmem c hc)).walk_inside hw
      obtain ⟨hstart, _, _⟩ := (children d (hmem d hd)).walk_inside hw'
      have hbehind : w.node.stop ≤ w'.node.start :=
        Nat.le_trans hstop (Nat.le_trans hcd hstart)
      exact ⟨Int.ofNat_le.mpr (Nat.le_trans hle hbehind), .inl (Int.ofNat_le.mpr hbehind)⟩

end WellNested

theorem Visit.trigger?_site {v : Visit} {t : Trigger} (h : v.trigger? source = .ok (some t)) :
    t.site = v.site source := by
  unfold Visit.trigger? at h
  split at h
  next => cases h
  next =>
    obtain ⟨e, _, h⟩ := bind_eq_ok.mp h
    cases h
    rfl

theorem triggers_inBounds (hroot : root.WellNested) (hbound : root.stop ≤ source.length)
    (hts : root.triggers source = .ok ts) {t : Trigger} (ht : t ∈ ts) :
    t.site.InBounds source := by
  obtain ⟨v, hv, _, _, _, hsite⟩ := triggers_found hts ht
  obtain ⟨_, hle, hstop⟩ := hroot.walk_inside hv
  rw [hsite]
  exact ⟨Int.natCast_nonneg _, Int.ofNat_le.mpr hle,
    Int.ofNat_le.mpr (Nat.le_trans hstop hbound)⟩

theorem triggers_follow (hroot : root.WellNested) (hts : root.triggers source = .ok ts) :
    ts.Pairwise fun t t' => t.site.Follows t'.site := by
  obtain ⟨found, hfound, h⟩ := bind_eq_ok.mp hts
  cases h
  -- the property of two visits is told by what they give, so that it passes to the statements found
  have hgiven : (root.visits.map (·.trigger? source)).Pairwise fun x y =>
      ∀ t t', x = .ok (some t) → y = .ok (some t') → t.site.Follows t'.site := by
    refine List.pairwise_map.mpr ((hroot.walk_follows source).imp fun {v v'} hv t t' ht ht' => ?_)
    rw [Visit.trigger?_site ht, Visit.trigger?_site ht']
    exact hv
  rw [mapM_eq_ok.mp hfound, List.pairwise_map] at hgiven
  refine List.pairwise_filterMap.mpr (hgiven.imp fun {x y} h t ht t' ht' => h t t' ?_ ?_)
  · exact congrArg Except.ok ht
  · exact congrArg Except.ok ht'

end Node

/-! ## What the loop takes -/

variable {o : Options} {source : Bytes} {ts : List Trigger} {covered : Int}

/-- What the loop does with its first statement: it leaves the statement alone, since it is covered or
is not to be replaced, or it takes its replacement and goes on behind it. -/
theorem takeOutermost_cons (o : Options) (covered : Int) {t : Trigger} (ts : List Trigger)
    (ht : t.expr.isPrintable = true) :
    (takeOutermost o covered (t :: ts) = takeOutermost o covered ts ∧
      (t.site.start < covered ∨ t.rewrite? o = none)) ∨
    ∃ r, takeOutermost o covered (t :: ts) = r :: takeOutermost o t.site.stop ts ∧
      covered ≤ t.site.start ∧ t.rewrite? o = some r ∧ r.trigger = t := by
  rw [takeOutermost]
  split
  next hcovered => exact .inl ⟨rfl, .inl hcovered⟩
  next hcovered =>
    cases hr : t.rewrite? o with
    | none => exact .inl ⟨rfl, .inr rfl⟩
    | some r =>
      obtain ⟨_, _, _, hfilled⟩ := Trigger.unfolds_rewrite? o ht
      exact .inr ⟨r, rfl, Int.not_lt.mp hcovered, rfl, (hfilled r hr).1⟩

theorem takeOutermost_sublist (hts : ∀ t ∈ ts, t.expr.isPrintable = true) :
    ((takeOutermost o covered ts).map (·.trigger)).Sublist ts := by
  induction ts generalizing covered with
  | nil => exact .slnil
  | cons t ts ih =>
    obtain ⟨ht, hrest⟩ := List.forall_mem_cons.mp hts
    obtain ⟨hskip, _⟩ | ⟨r, htake, _, _, rfl⟩ := takeOutermost_cons o covered ts ht
    · rw [hskip]
      exact (ih hrest).cons t
    · rw [htake]
      exact (ih hrest).cons_cons r.trigger

/-- **A statement that is to be replaced is taken, or lies inside one that is taken**, unless it is
covered from the start. -/
theorem takeOutermost_covers (hts : ∀ t ∈ ts, t.expr.isPrintable = true)
    (hfollows : ts.Pairwise fun t t' => t.site.Follows t'.site) {t : Trigger} (ht : t ∈ ts)
    (hrewrite : (t.rewrite? o).isSome) :
    t.site.start < covered ∨ t ∈ (takeOutermost o covered ts).map (·.trigger) ∨
      ∃ r ∈ takeOutermost o covered ts, t.site.Within r.trigger.site := by
  induction ts generalizing covered with
  | nil => cases ht
  | cons s ts ih =>
    obtain ⟨hs, hrest⟩ := List.forall_mem_cons.mp hts
    obtain ⟨hfirst, hfollows'⟩ := List.pairwise_cons.mp hfollows
    obtain ⟨hskip, hs⟩ | ⟨r, htake, _, _, rfl⟩ := takeOutermost_cons o covered ts hs
    · rw [hskip]
      rcases List.mem_cons.mp ht with rfl | ht
      · refine hs.imp_right fun hnone => ?_
        rw [hnone] at hrewrite
        cases hrewrite
      · exact ih hrest hfollows' ht
    · rw [htake]
      right
      rcases List.mem_cons.mp ht with rfl | ht
      · exact .inl List.mem_cons_self
      · rcases ih hrest hfollows' ht with hlt | htaken | ⟨s, hs, hin⟩
        · -- it begins before the taken statement ends, so it lies inside that statement
          obtain ⟨hstart, hstop⟩ := hfirst t ht
          exact .inr ⟨r, List.mem_cons_self, hstart, hstop.resolve_left (Int.not_le.mpr hlt)⟩
        · exact .inl (List.mem_cons_of_mem _ htaken)
        · exact .inr ⟨s, List.mem_cons_of_mem _ hs, hin⟩

/-- What is taken begins behind what is covered, and no two of it overlap. -/
theorem takeOutermost_apart (hts : ∀ t ∈ ts, t.expr.isPrintable = true)
    (hspan : ∀ t ∈ ts, t.site.start ≤ t.site.stop) :
    (∀ r ∈ takeOutermost o covered ts, covered ≤ r.trigger.site.start) ∧
      (takeOutermost o covered ts).Pairwise fun r s =>
        r.trigger.site.stop ≤ s.trigger.site.start := by
  induction ts generalizing covered with
  | nil => exact ⟨List.forall_mem_nil _, .nil⟩
  | cons t ts ih =>
    obtain ⟨ht, hrest⟩ := List.forall_mem_cons.mp hts
    obtain ⟨hle, hspan'⟩ := List.forall_mem_cons.mp hspan
    obtain ⟨hskip, _⟩ | ⟨r, htake, hcovered, _, rfl⟩ := takeOutermost_cons o covered ts ht
    · rw [hskip]
      exact ih hrest hspan'
    · rw [htake]
      obtain ⟨hbehind, hapart⟩ := ih hrest hspan'
      refine ⟨List.forall_mem_cons.mpr ⟨hcovered, fun s hs => ?_⟩, .cons hbehind hapart⟩
      have := hbehind s hs
      omega

theorem Replacement.edit_span {r : Replacement} {layout : Layout} {e : Edit}
    (h : r.edit layout = .ok e) : e.start = r.trigger.site.start ∧ e.stop = r.trigger.site.stop := by
  obtain ⟨text, _, rfl⟩ := Site.edit_eq_ok.mp h
  exact ⟨rfl, rfl⟩

theorem Replacement.edits_span {layout : Layout} {picked : List Replacement} {edits : List Edit}
    (h : picked.mapM (·.edit layout) = .ok edits) :
    edits.map (fun e => (e.start, e.stop)) =
      picked.map (fun r => (r.trigger.site.start, r.trigger.site.stop)) := by
  induction picked generalizing edits with
  | nil => cases h; rfl
  | cons r picked ih =>
    rw [List.mapM_cons] at h
    obtain ⟨e, he, h⟩ := bind_eq_ok.mp h
    obtain ⟨es, hes, h⟩ := bind_eq_ok.mp h
    cases h
    obtain ⟨hstart, hstop⟩ := edit_span he
    rw [List.map_cons, List.map_cons, ih hes, hstart, hstop]

/-- **The edits of what is taken stand in order and apart.** -/
theorem takeOutermost_inOrder (hts : ∀ t ∈ ts, t.expr.isPrintable = true)
    (hbounds : ∀ t ∈ ts, t.site.InBounds source) {edits : List Edit}
    (hedits : (takeOutermost o covered ts).mapM (·.edit o.layout) = .ok edits) :
    Edit.InOrder source covered.toNat edits := by
  induction ts generalizing covered edits with
  | nil => cases hedits; exact .nil
  | cons t ts ih =>
    obtain ⟨ht, hrest⟩ := List.forall_mem_cons.mp hts
    obtain ⟨⟨hnonneg, hle, hstop⟩, hbounds'⟩ := List.forall_mem_cons.mp hbounds
    obtain ⟨hskip, _⟩ | ⟨r, htake, hcovered, _, rfl⟩ := takeOutermost_cons o covered ts ht
    · rw [hskip] at hedits
      exact ih hrest hbounds' hedits
    · rw [htake, List.mapM_cons] at hedits
      obtain ⟨e, he, hedits⟩ := bind_eq_ok.mp hedits
      obtain ⟨es, hes, hedits⟩ := bind_eq_ok.mp hedits
      cases hedits
      obtain ⟨hestart, hestop⟩ := Replacement.edit_span he
      have hfirst : e.start = r.trigger.site.start.toNat := by omega
      have hlast : e.stop = r.trigger.site.stop.toNat := by omega
      exact .cons hfirst hlast (by omega) (by omega) (by omega) (ih hrest hbounds' hes)

/-! ## The edits of a pass -/

/-- The statements to be replaced that do not lie inside another one of them, in the order of the
source: they were found, they do not overlap, and any other statement to be replaced lies inside one
of them. -/
structure Outermost (o : Options) (ts : List Trigger) (picked : List Replacement) : Prop where
  found : (picked.map (·.trigger)).Sublist ts
  rewritten : ∀ r ∈ picked, r.trigger.rewrite? o = some r
  apart : picked.Pairwise fun r s => r.trigger.site.stop ≤ s.trigger.site.start
  covering : ∀ t ∈ ts, (t.rewrite? o).isSome →
    t ∈ picked.map (·.trigger) ∨ ∃ r ∈ picked, t.site.Within r.trigger.site

namespace Outermost

variable {picked : List Replacement}

theorem same_or_apart (h : Outermost o ts picked) : ∀ r ∈ picked, ∀ s ∈ picked,
    r = s ∨ r.trigger.site.stop ≤ s.trigger.site.start ∨
      s.trigger.site.stop ≤ r.trigger.site.start := by
  intro r hr s hs
  exact List.Pairwise.forall_of_forall_of_flip (R := fun r s => r = s ∨
    r.trigger.site.stop ≤ s.trigger.site.start ∨ s.trigger.site.stop ≤ r.trigger.site.start)
    (fun _ _ => .inl rfl) (h.apart.imp fun hrs => .inr (.inl hrs))
    (h.apart.imp fun hrs => .inr (.inr hrs)) hr hs

/-- A statement that is picked, and is not empty, lies inside no other statement to be replaced,
unless the two have the same span. -/
theorem maximal (h : Outermost o ts picked) {r : Replacement} (hr : r ∈ picked)
    (hspan : r.trigger.site.start < r.trigger.site.stop) {t : Trigger} (ht : t ∈ ts)
    (hrewrite : (t.rewrite? o).isSome) (hin : r.trigger.site.Within t.site) :
    t.site.Within r.trigger.site := by
  obtain ⟨s, hs, hts⟩ : ∃ s ∈ picked, t.site.Within s.trigger.site := by
    rcases h.covering t ht hrewrite with ht | hs
    · obtain ⟨s, hs, rfl⟩ := List.mem_map.mp ht
      exact ⟨s, hs, Int.le_refl _, Int.le_refl _⟩
    · exact hs
  rcases h.same_or_apart r hr s hs with rfl | hapart | hapart
  · exact hts
  -- two picked statements do not overlap, but the one contains the other
  all_goals
    obtain ⟨hstart, hstop⟩ := hin
    obtain ⟨hstart', hstop'⟩ := hts
    omega

end Outermost

/-- **A pass edits the outermost statements that are to be replaced, and nothing else.** No edit
overlaps another one, so the edits are all put in place. An edit cannot be made only if a surrogate
stands in the indent; then the pass fails, unless there is nothing to edit. -/
theorem passEdits_outermost (o : Options) {root : Node} {source : Bytes} (report : Report)
    {ts : List Trigger} (hroot : root.WellNested) (hbound : root.stop ≤ source.length)
    (herror : root.hasError = false) (hts : root.triggers source = .ok ts) :
    ∃ picked events, Outermost o ts picked ∧
      (∀ r ∈ picked, r.trigger.site.start < r.trigger.site.stop → ∀ t ∈ ts,
        (t.rewrite? o).isSome → r.trigger.site.Within t.site → t.site.Within r.trigger.site) ∧
      (picked = [] ∨ o.layout.indent.IsPlain → ∃ edits,
        (passEdits o root ⟨source, report⟩).outcome =
          (.ok (edits, picked.foldl (fun report r => r.enter report) report), events) ∧
        picked.map (·.edit o.layout) = edits.map .ok ∧
        edits.map (fun e => (e.start, e.stop)) =
          picked.map (fun r => (r.trigger.site.start, r.trigger.site.stop)) ∧
        (∀ e ∈ edits, 0 ≤ e.start ∧ e.start ≤ e.stop) ∧
        edits.Pairwise (fun e f => e.stop ≤ f.start) ∧
        Edit.applyAll edits source = .ok (Edit.patched source 0 edits)) ∧
      (¬ (picked = [] ∨ o.layout.indent.IsPlain) →
        (passEdits o root ⟨source, report⟩).outcome = (.error .notEncodable, events)) := by
  have hprintable : ∀ t ∈ ts, t.expr.isPrintable = true :=
    fun _ ht => Node.triggers_isPrintable hts ht
  have hbounds : ∀ t ∈ ts, t.site.InBounds source :=
    fun _ ht => Node.triggers_inBounds hroot hbound hts ht
  have hcheck : root.check source = .ok () := by
    rw [Node.check, herror]
    rfl
  have houtermost : Outermost o ts (takeOutermost o (-1) ts) := by
    refine ⟨takeOutermost_sublist hprintable, fun r hr => (takeOutermost_mem hprintable hr).2.1,
      (takeOutermost_apart hprintable fun t ht => (hbounds t ht).2.1).2, fun t ht hrewrite => ?_⟩
    -- no statement begins before the start of the source
    refine (takeOutermost_covers hprintable (Node.triggers_follow hroot hts) ht
      hrewrite).resolve_left fun hlt => ?_
    have := (hbounds t ht).1
    omega
  obtain ⟨events, _, hends⟩ := passEdits_ends o (p := ⟨source, report⟩) hcheck hts
  refine ⟨_, events, houtermost,
    fun r hr hspan t ht hrewrite hin => houtermost.maximal hr hspan ht hrewrite hin, ?_⟩
  obtain ⟨edits, hedits, hplain, hruns⟩ | ⟨hne, hplain, hruns⟩ := hends
  · have horder : Edit.InOrder source 0 edits := takeOutermost_inOrder hprintable hbounds hedits
    exact ⟨fun _ => ⟨edits, hruns.outcome, mapM_eq_ok.mp hedits, Replacement.edits_span hedits,
      fun e he => horder.le_start he, horder.pairwise, Edit.applyAll_eq_patched horder⟩,
      fun h => absurd hplain h⟩
  · exact ⟨fun h => absurd h (not_or.mpr ⟨hne, hplain⟩), fun _ => hruns.outcome⟩

namespace FunctionArms

open Sample

/-- The node of `b && c`, or of the like with another operator of two characters. -/
def logical (op : String) (start : Nat) : Node :=
  node "binary_expression" start (start + 6)
    [part "left" (word start), part "operator" (token op (start + 2) (start + 4)),
      part "right" (word (start + 5))]

/-- The node of `a ? () => { b && c } : d`, or of the like with another operator. -/
def choice (op : String) (start : Nat) : Node :=
  let statement := node "expression_statement" (start + 12) (start + 18) [logical op (start + 12)]
  let block := node "statement_block" (start + 10) (start + 20) [statement]
  let function := node "arrow_function" (start + 4) (start + 20) [block]
  node "ternary_expression" start (start + 24)
    [part "condition" (word start), part "consequence" function,
      part "alternative" (word (start + 23))]

def text : Bytes :=
  Utf8.encode ("return a ? () => " ++ braced "b && c" ++ " : d; p ? () => " ++ braced "q || r" ++
    " : s")

/-- What takes the place of `b && c`. -/
def first : String := ifHead "b" ++ "\n  c;\n" ++ blockEnd

/-- What takes the place of the conditional at the end. -/
def second : String :=
  ifHead "p" ++ "\n  () => " ++ braced "q || r" ++ ";\n" ++ elseHead ++ "\n  s;\n" ++ blockEnd

def root : Node :=
  node "program" 0 57 [node "return_statement" 0 32 [choice "&&" 7],
    node "expression_statement" 33 57 [choice "||" 33]]

/-- The conditional that is returned has no other one in its arms and is left alone, so that the
statement in its arm is edited. The conditional behind it is edited, and the statement in its arm is
left to the next pass. -/
theorem passEdits_root :
    root.WellNested ∧ root.stop ≤ text.length ∧ root.hasError = false ∧
      ∃ ts picked edits report events, root.triggers text = .ok ts ∧
        ts.map (fun t => (t.kind, t.site.start, t.site.stop)) =
          [(.ret, 0, 32), (.logical, 19, 25), (.conditional, 33, 57), (.logical, 45, 51)] ∧
        (passEdits {} root ⟨text, {}⟩).outcome = (.ok (edits, report), events) ∧
        Outermost {} ts picked ∧
        picked.map (fun r => (r.trigger.site.start, r.trigger.site.stop)) = [(19, 25), (33, 57)] ∧
        Edit.applyAll edits text =
          .ok (Utf8.encode ("return a ? () => " ++ braced first ++ " : d; " ++ second)) := by
  have hroot : root.WellNested := by decide +kernel
  have hbound : root.stop ≤ text.length := by decide +kernel
  have herror : root.hasError = false := by decide +kernel
  have hspans : (root.triggers text).toOption.map
      (·.map fun t => (t.kind, t.site.start, t.site.stop)) =
        some [(.ret, 0, 32), (.logical, 19, 25), (.conditional, 33, 57), (.logical, 45, 51)] := by
    decide +kernel
  have hpass : (passEdits {} root ⟨text, {}⟩).outcome.1.toOption.map (·.1) = some
      [⟨19, 25, Utf8.encode first⟩, ⟨33, 57, Utf8.encode second⟩] := by
    decide +kernel
  obtain ⟨ts, hts⟩ : ∃ ts, root.triggers text = .ok ts := by
    cases h : root.triggers text with
    | ok ts => exact ⟨ts, rfl⟩
    | error e => rw [h] at hspans; cases hspans
  rw [hts] at hspans
  obtain ⟨picked, events, houtermost, _, hedits, _⟩ :=
    passEdits_outermost {} {} hroot hbound herror hts
  obtain ⟨edits, hout, _, hpicked, _, _, happly⟩ := hedits (.inr (WideText.isPlain_ofString _))
  rw [hout] at hpass
  obtain rfl := Option.some.inj hpass
  exact ⟨hroot, hbound, herror, ts, picked, _, _, events, hts, Option.some.inj hspans, hout,
    houtermost, hpicked.symm, happly.trans (congrArg Except.ok (by decide +kernel))⟩

end FunctionArms
end CondUnfold
