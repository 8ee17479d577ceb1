import CondUnfold.Proofs.Outermost
import CondUnfold.Proofs.Utf8

/-!
# When unfolding is done

A run of passes ends in one of two ways: with a pass that finds nothing to edit, or with the warning
that the passes are exhausted while the next pass would find something (`runPasses_runs`). In the
first way the result is settled, and a run over a settled source changes nothing and reports nothing
(`runPasses_settled`).
-/

namespace CondUnfold

open Except

/-- A pass over the source has something to edit. -/
def Unsettled (o : Options) (root : Node) (source : Bytes) : Prop :=
  ∃ edits, edits ≠ [] ∧ ∀ report, ∃ report' events,
    (passEdits o root ⟨source, report⟩).outcome = (.ok (edits, report'), events)

/-- A pass over the source can be made, and has nothing to edit. -/
def Settled (o : Options) (root : Node) (source : Bytes) : Prop :=
  ∃ ts, root.check source = .ok () ∧ root.triggers source = .ok ts ∧ takeOutermost o (-1) ts = []

/-- A pass over the source can be made, and has something to replace. -/
def Pending (o : Options) (root : Node) (source : Bytes) : Prop :=
  ∃ ts, root.check source = .ok () ∧ root.triggers source = .ok ts ∧ takeOutermost o (-1) ts ≠ []

variable {o : Options} {root : Node} {source : Bytes}

/-! ## One pass -/

/-- What a pass does, it does from any log. -/
theorem passEdits_runs_outcome {p : Progress} {r : Except Error (List Edit × Report)} {events : Log}
    (h : (passEdits o root p).outcome = (r, events)) : (passEdits o root p).Runs r events := by
  obtain ⟨ts, hcheck, hts⟩ | ⟨e, hruns⟩ := passEdits_cases o root p
  · obtain ⟨_, hruns, _⟩ := passEdits_runs o hcheck hts
    cases hruns.outcome.symm.trans h
    exact hruns
  · cases hruns.outcome.symm.trans h
    exact hruns

/-- A pass that succeeds does so over a tree that can be unfolded. -/
theorem passEdits_taken {p : Progress} {edits : List Edit} {report : Report} {events : Log}
    (h : (passEdits o root p).outcome = (.ok (edits, report), events)) :
    ∃ ts, root.check p.source = .ok () ∧ root.triggers p.source = .ok ts ∧
      (takeOutermost o (-1) ts).mapM (·.edit o.layout) = .ok edits ∧
      (takeOutermost o (-1) ts = [] ∨ o.layout.indent.IsPlain) := by
  obtain ⟨ts, hcheck, hts⟩ | ⟨e, hfail⟩ := passEdits_cases o root p
  · obtain ⟨_, _, ⟨edits, hedits, hplain, hruns⟩ | ⟨_, _, hfail⟩⟩ := passEdits_ends o hcheck hts
    · cases hruns.outcome.symm.trans h
      exact ⟨ts, hcheck, hts, hedits, hplain⟩
    · cases hfail.outcome.symm.trans h
  · cases hfail.outcome.symm.trans h

/-- What is pending is edited if no surrogate stands in the indent. -/
theorem unsettled_iff :
    Unsettled o root source ↔ Pending o root source ∧ o.layout.indent.IsPlain := by
  constructor
  · rintro ⟨edits, hne, hpass⟩
    obtain ⟨_, _, hpass⟩ := hpass {}
    obtain ⟨ts, hcheck, hts, hedits, hplain⟩ := passEdits_taken hpass
    have hsome := mt (edits_eq_nil_iff hedits).mpr hne
    exact ⟨⟨ts, hcheck, hts, hsome⟩, hplain.resolve_left hsome⟩
  · rintro ⟨⟨ts, hcheck, hts, hsome⟩, hplain⟩
    obtain ⟨edits, hedits, _⟩ | ⟨_, _, hnot⟩ := edits_cases (o := o) hts (-1)
    · refine ⟨edits, mt (edits_eq_nil_iff hedits).mp hsome, fun report => ?_⟩
      obtain ⟨events, hruns, _⟩ := passEdits_runs o (p := ⟨source, report⟩) hcheck hts
      rw [hedits] at hruns
      exact ⟨_, events, hruns.outcome⟩
    · exact absurd hplain hnot

theorem Settled.not_pending (h : Settled o root source) : ¬ Pending o root source := by
  rintro ⟨_, _, hts', hsome⟩
  obtain ⟨ts, _, hts, hnone⟩ := h
  cases hts.symm.trans hts'
  exact hsome hnone

theorem Settled.not_unsettled (h : Settled o root source) : ¬ Unsettled o root source :=
  fun hunsettled => h.not_pending (unsettled_iff.mp hunsettled).1

theorem settled_or_pending (o : Options) (root : Node) (source : Bytes) :
    Settled o root source ∨ Pending o root source ∨
      ∃ e, (replacements o root source).Runs (.error e) [] := by
  obtain ⟨ts, hcheck, hts⟩ | hfail := replacements_cases o root source
  · by_cases htaken : takeOutermost o (-1) ts = []
    · exact .inl ⟨ts, hcheck, hts, htaken⟩
    · exact .inr (.inl ⟨ts, hcheck, hts, htaken⟩)
  · exact .inr (.inr hfail)

/-- With a surrogate in the indent, a pass that has something to replace fails. -/
theorem Pending.passEdits_fails {p : Progress} (h : Pending o root p.source)
    (hindent : ¬ o.layout.indent.IsPlain) :
    ∃ events, (passEdits o root p).Runs (.error .notEncodable) events := by
  obtain ⟨ts, hcheck, hts, hsome⟩ := h
  obtain ⟨events, _, ⟨_, _, hplain, _⟩ | ⟨_, _, hruns⟩⟩ := passEdits_ends o hcheck hts
  · exact absurd (hplain.resolve_left hsome) hindent
  · exact ⟨events, hruns⟩

theorem enter_name (r : Replacement) (report : Report) : (r.enter report).name = report.name := by
  have hrefuse : ∀ (notes : List RefusalNote) (report : Report),
      (notes.foldl Report.refuse report).name = report.name := by
    intro notes
    induction notes with
    | nil => exact fun _ => rfl
    | cons note notes ih => exact fun report => ih (report.refuse note)
  exact hrefuse r.notes _

theorem foldl_enter_name (found : List Replacement) (report : Report) :
    (found.foldl (fun report r => r.enter report) report).name = report.name := by
  induction found generalizing report with
  | nil => rfl
  | cons r found ih => rw [List.foldl_cons, ih, enter_name]

/-! ## A run of passes -/

/-- How a run of passes ends if it does not fail: quietly with a settled source, or with a warning
and a source that is not settled. -/
def Ending (o : Options) (parse : Bytes → Node) (name : Option String) (events : Log)
    (source : Bytes) : Prop :=
  events.Quiet ∧ Settled o (parse source) source ∨
    ∃ quiet : Log, quiet.Quiet ∧
      events = quiet ++ [.passesExhausted (nameOr "<source>" name) o.maxPasses] ∧
      Unsettled o (parse source) source

theorem Ending.quiet_append {parse : Bytes → Node} {name : Option String} {first events : Log}
    (hfirst : first.Quiet) (h : Ending o parse name events source) :
    Ending o parse name (first ++ events) source := by
  obtain ⟨hquiet, hsettled⟩ | ⟨quiet, hquiet, rfl, hunsettled⟩ := h
  · exact .inl ⟨List.forall_mem_append.mpr ⟨hfirst, hquiet⟩, hsettled⟩
  · exact .inr ⟨first ++ quiet, List.forall_mem_append.mpr ⟨hfirst, hquiet⟩,
      (List.append_assoc ..).symm, hunsettled⟩

variable {parse : Bytes → Node}

/-- A run over a settled source changes nothing and reports nothing. -/
theorem runPasses_settled (h : Settled o (parse source) source) (left done : Nat)
    (report : Report) :
    ∃ events, (runPasses o (fun _ => parse) left done ⟨source, report⟩).Runs
      (.ok ⟨source, report⟩) events ∧ events.Quiet := by
  obtain ⟨ts, hcheck, hts, hnone⟩ := h
  cases left with
  | zero =>
    obtain ⟨events, hruns, hquiet⟩ := replacements_runs o hcheck hts
    rw [hnone] at hruns
    exact ⟨events ++ [], hruns.bind (Logged.runs_pure _), by rwa [List.append_nil]⟩
  | succ left =>
    obtain ⟨events, hruns, hquiet⟩ := passEdits_runs o (p := ⟨source, report⟩) hcheck hts
    rw [hnone] at hruns
    exact ⟨events ++ [], hruns.bind (Logged.runs_pure _), by rwa [List.append_nil]⟩

theorem runs_settled {p : Progress} (h : Settled o (parse p.source) p.source) (left done : Nat) :
    ∃ r events, (runPasses o (fun _ => parse) left done p).Runs r events ∧
      ∀ p', r = .ok p' → Ending o parse p.report.name events p'.source := by
  obtain ⟨events, hruns, hquiet⟩ := runPasses_settled h left done p.report
  refine ⟨_, events, hruns, ?_⟩
  rintro _ ⟨⟩
  exact .inl ⟨hquiet, h⟩

/-- When no pass is left, the warning is given for a source that is not settled. -/
theorem runPasses_exhausted (h : Unsettled o (parse source) source) (done : Nat)
    (report : Report) :
    ∃ quiet : Log, (runPasses o (fun _ => parse) 0 done ⟨source, report⟩).Runs
      (.ok ⟨source, report⟩)
      (quiet ++ [.passesExhausted (nameOr "<source>" report.name) o.maxPasses]) ∧ quiet.Quiet := by
  obtain ⟨⟨ts, hcheck, hts, hsome⟩, _⟩ := unsettled_iff.mp h
  obtain ⟨quiet, hruns, hquiet⟩ := replacements_runs o hcheck hts
  refine ⟨quiet, hruns.bind ?_, hquiet⟩
  rw [List.isEmpty_eq_false_iff.mpr hsome]
  exact Logged.runs_tell_pure _ _

theorem runPasses_pass {parse : Nat → Bytes → Node} {p : Progress} {edits : List Edit}
    {report : Report} {events events' : Log} {left done : Nat} {r : Except Error Progress}
    (hpass : (passEdits o (parse done p.source) p).Runs (.ok (edits, report)) events)
    (hne : edits ≠ []) (happly : Edit.applyAll edits p.source = .ok source)
    (hrest : (runPasses o parse left (done + 1)
      ⟨source, { report with passes := report.passes + 1 }⟩).Runs r events') :
    (runPasses o parse (left + 1) done p).Runs r (events ++ events') := by
  refine hpass.bind ?_
  simp only [List.isEmpty_eq_false_iff.mpr hne]
  exact Logged.runs_lift_bind happly hrest

theorem runPasses_succ {p : Progress} {edits : List Edit} {report : Report} {events events' : Log}
    {left done : Nat} {r : Except Error Progress}
    (hpass : (passEdits o (parse p.source) p).Runs (.ok (edits, report)) events) (hne : edits ≠ [])
    (happly : Edit.applyAll edits p.source = .ok source)
    (hrest : (runPasses o (fun _ => parse) left (done + 1)
      ⟨source, { report with passes := report.passes + 1 }⟩).Runs r events') :
    (runPasses o (fun _ => parse) (left + 1) done p).Runs r (events ++ events') :=
  runPasses_pass hpass hne happly hrest

/-- **A run of passes that does not fail ends in one of the two ways.** After the last pass nothing
is edited, so that a surrogate in the indent would go unnoticed if there were no pass at all. -/
theorem runPasses_runs (o : Options) (parse : Bytes → Node) {left : Nat}
    (hleft : 0 < left ∨ o.layout.indent.IsPlain) (done : Nat) (p : Progress) :
    ∃ r events, (runPasses o (fun _ => parse) left done p).Runs r events ∧
      ∀ p', r = .ok p' → Ending o parse p.report.name events p'.source := by
  -- on the passes that are left; the report and the source change along the way
  induction left generalizing done p with
  | zero =>
    obtain hsettled | hpending | ⟨e, hfail⟩ := settled_or_pending o (parse p.source) p.source
    · exact runs_settled hsettled 0 done
    · have hunsettled := unsettled_iff.mpr ⟨hpending, hleft.resolve_left (Nat.lt_irrefl 0)⟩
      obtain ⟨quiet, hruns, hquiet⟩ := runPasses_exhausted hunsettled done p.report
      refine ⟨_, _, hruns, ?_⟩
      rintro _ ⟨⟩
      exact .inr ⟨quiet, hquiet, rfl, hunsettled⟩
    · exact ⟨.error e, [], hfail.bind_error, nofun⟩
  | succ left ih =>
    obtain hsettled | ⟨ts, hcheck, hts, hsome⟩ | ⟨e, hfail⟩ :=
      settled_or_pending o (parse p.source) p.source
    · exact runs_settled hsettled (left + 1) done
    · obtain ⟨events, hquiet, ⟨edits, hedits, hplain, hruns⟩ | ⟨_, _, hruns⟩⟩ :=
        passEdits_ends o hcheck hts
      · have hne : edits ≠ [] := mt (edits_eq_nil_iff hedits).mp hsome
        -- edits that overlap are refused, and the run fails
        cases happly : Edit.applyAll edits p.source with
        | error e =>
          refine ⟨.error e, events ++ [], hruns.bind ?_, nofun⟩
          simp only [List.isEmpty_eq_false_iff.mpr hne]
          exact Logged.runs_lift_error happly
        | ok source =>
          obtain ⟨r, events', hruns', hend⟩ :=
            ih (.inr (hplain.resolve_left hsome)) (done + 1) ⟨source, _⟩
          refine ⟨r, events ++ events', runPasses_succ hruns hne happly hruns', fun p' hp' => ?_⟩
          have hend := hend p' hp'
          rw [foldl_enter_name] at hend
          exact hend.quiet_append hquiet
      · exact ⟨.error .notEncodable, events, hruns.bind_error, nofun⟩
    · exact ⟨.error e, [], hfail.bind_error.bind_error, nofun⟩

/-! ## Whole sources -/

variable {name : Option String} {s : String} {u : Unfolded} {log : Log}

theorem runPasses_ends (o : Options) (parse : Bytes → Node) (p : Progress) :
    ∃ r events, (runPasses o (fun _ => parse) o.maxPasses.toNat 0 p).Runs r events ∧
      ∀ p', r = .ok p' → Ending o parse p.report.name events p'.source := by
  have hpos := o.maxPasses_pos
  exact runPasses_runs o parse (.inl (by omega)) 0 p

theorem unfoldBy_of_runs {parse : Nat → Bytes → Node} {p : Progress} {result : String}
    (hruns : (runPasses o parse o.maxPasses.toNat 0 ⟨Utf8.encode s, { name }⟩).Runs (.ok p) log)
    (hdecode : Utf8.decode? p.source = some result) :
    unfoldBy parse o name s = (.ok ⟨result, result != s, p.report⟩, log) := by
  refine Logged.Runs.outcome ?_
  rw [← List.append_nil log]
  refine hruns.bind ?_
  rw [hdecode]
  exact Logged.runs_pure _

theorem unfold_of_runs {p : Progress} {result : String}
    (hruns : (runPasses o (fun _ => parse) o.maxPasses.toNat 0 ⟨Utf8.encode s, { name }⟩).Runs
      (.ok p) log) (hdecode : Utf8.decode? p.source = some result) :
    unfold parse o name s = (.ok ⟨result, result != s, p.report⟩, log) :=
  unfoldBy_of_runs hruns hdecode

theorem unfold_of_not_text {p : Progress}
    (hruns : (runPasses o (fun _ => parse) o.maxPasses.toNat 0 ⟨Utf8.encode s, { name }⟩).Runs
      (.ok p) log) (hdecode : Utf8.decode? p.source = none) :
    unfold parse o name s = (.error .notUtf8, log) := by
  refine Logged.Runs.outcome ?_
  rw [← List.append_nil log]
  refine hruns.bind ?_
  rw [hdecode]
  exact Logged.runs_lift (.error .notUtf8)

/-- Unfolding succeeds if the passes do and end with a text. -/
theorem unfold_eq_ok (h : unfold parse o name s = (.ok u, log)) :
    ∃ p, (runPasses o (fun _ => parse) o.maxPasses.toNat 0 ⟨Utf8.encode s, { name }⟩).Runs
        (.ok p) log ∧ p.source = Utf8.encode u.source ∧ u.changed = (u.source != s) := by
  obtain ⟨r, events, hruns, _⟩ := runPasses_ends o parse ⟨Utf8.encode s, { name }⟩
  cases r with
  | error e =>
    have hfail : unfold parse o name s = (.error e, events) := hruns.bind_error.outcome
    cases hfail.symm.trans h
  | ok p =>
    cases hdecode : Utf8.decode? p.source with
    | none => cases (unfold_of_not_text hruns hdecode).symm.trans h
    | some result =>
      cases (unfold_of_runs hruns hdecode).symm.trans h
      exact ⟨p, hruns, (Utf8.encode_of_decode? hdecode).symm, rfl⟩

/-- The bytes of the result are those with which the passes ended. -/
theorem unfold_ending (h : unfold parse o name s = (.ok u, log)) :
    Ending o parse name log (Utf8.encode u.source) := by
  obtain ⟨p, hruns, hsource, _⟩ := unfold_eq_ok h
  obtain ⟨r, events, hruns', hend⟩ := runPasses_ends o parse ⟨Utf8.encode s, { name }⟩
  obtain ⟨rfl, rfl⟩ := hruns.unique hruns'
  exact hsource ▸ hend p rfl

theorem unfold_settled (h : Settled o (parse (Utf8.encode s)) (Utf8.encode s))
    (name : Option String) :
    ∃ log, unfold parse o name s = (.ok ⟨s, false, { name }⟩, log) ∧ log.Quiet := by
  obtain ⟨log, hruns, hquiet⟩ := runPasses_settled h o.maxPasses.toNat 0 { name }
  refine ⟨log, ?_, hquiet⟩
  rw [unfold_of_runs hruns (Utf8.decode?_encode s), bne_self_eq_false]

theorem Log.Quiet.not_mem_passesExhausted (h : log.Quiet) (who : String) (n : Int) :
    Event.passesExhausted who n ∉ log := fun hmem => h _ hmem rfl

/-- **Unfolding is idempotent exactly if it does not warn.** The warning tells that a pass over the
result would edit something; without it, unfolding the result gives the same text and an empty
report. -/
theorem unfold_warns_iff_unsettled (h : unfold parse o name s = (.ok u, log)) :
    ((∃ who n, .passesExhausted who n ∈ log) ↔
      Unsettled o (parse (Utf8.encode u.source)) (Utf8.encode u.source)) ∧
    (∀ who n, .passesExhausted who n ∈ log → who = nameOr "<source>" name ∧ n = o.maxPasses) ∧
    ((¬ ∃ who n, .passesExhausted who n ∈ log) → ∀ name', ∃ log',
      unfold parse o name' u.source = (.ok ⟨u.source, false, { name := name' }⟩, log') ∧
        ¬ ∃ who n, .passesExhausted who n ∈ log') := by
  obtain ⟨hquiet, hsettled⟩ | ⟨quiet, hquiet, rfl, hunsettled⟩ := unfold_ending h
  · have hnone : ¬ ∃ who n, Event.passesExhausted who n ∈ log :=
      fun ⟨who, n, hmem⟩ => hquiet.not_mem_passesExhausted who n hmem
    refine ⟨⟨fun hwarn => absurd hwarn hnone, fun h => absurd h hsettled.not_unsettled⟩,
      fun who n hmem => absurd ⟨who, n, hmem⟩ hnone, fun _ name' => ?_⟩
    obtain ⟨log', hunfold, hquiet'⟩ := unfold_settled hsettled name'
    exact ⟨log', hunfold, fun ⟨who, n, hmem⟩ => hquiet'.not_mem_passesExhausted who n hmem⟩
  · have hwarn : ∃ who n, Event.passesExhausted who n ∈
        quiet ++ [.passesExhausted (nameOr "<source>" name) o.maxPasses] :=
      ⟨_, _, List.mem_append_right _ List.mem_cons_self⟩
    refine ⟨⟨fun _ => hunsettled, fun _ => hwarn⟩, fun who n hmem => ?_, fun hnone => absurd hwarn hnone⟩
    rcases List.mem_append.mp hmem with hmem | hmem
    · exact absurd hmem (hquiet.not_mem_passesExhausted who n)
    · cases List.mem_singleton.mp hmem
      exact ⟨rfl, rfl⟩

namespace OnePass

open FunctionArms Sample

def options : Options := { maxPasses := 1 }

def given : String := "p ? () => " ++ braced "q || r" ++ " : s"

/-- The text after one pass over it. -/
def once : String := second

/-- What takes the place of `q || r`. -/
def inner : String := ifHead "!q" ++ "\n    r;\n  " ++ blockEnd

/-- The text after another pass. -/
def twice : String :=
  ifHead "p" ++ "\n  () => " ++ braced inner ++ ";\n" ++ elseHead ++ "\n  s;\n" ++ blockEnd

def tree (source : Bytes) : Node :=
  if source = Utf8.encode given then
    node "program" 0 24 [node "expression_statement" 0 24 [choice "||" 0]]
  else if source = Utf8.encode once then
    let inner := node "expression_statement" 19 25 [logical "||" 19]
    let function := node "arrow_function" 11 27 [node "statement_block" 17 27 [inner]]
    let body := node "statement_block" 7 30 [node "expression_statement" 11 28 [function]]
    node "program" 0 44 [node "if_statement" 0 44 [body]]
  else node "program" 0 source.length []

def firstRecord : Record := ⟨"if-chain", "conditional", 1, 1, 1⟩
def secondRecord : Record := ⟨"if-chain", "logical", 2, 1, 1⟩

theorem passEdits_given :
    (passEdits options (tree (Utf8.encode given)) ⟨Utf8.encode given, {}⟩).outcome =
      (.ok ([⟨0, 24, Utf8.encode once⟩], { records := [firstRecord] }), [.triggersFound 2]) := by
  decide +kernel

theorem passEdits_once :
    (passEdits options (tree (Utf8.encode once)) ⟨Utf8.encode once, {}⟩).outcome =
      (.ok ([⟨19, 25, Utf8.encode inner⟩], { records := [secondRecord] }), [.triggersFound 1]) := by
  decide +kernel

theorem passEdits_twice :
    (passEdits options (tree (Utf8.encode twice)) ⟨Utf8.encode twice, {}⟩).outcome =
      (.ok ([], {}), [.triggersFound 0]) := by
  decide +kernel

/-- One pass is allowed. It leaves the statement inside the function, and a warning is given; the run
over its result uses the one pass too, leaves nothing and is quiet. -/
theorem unfold_given_and_once :
    (∃ log, unfold tree options none given =
        (.ok ⟨once, true, { passes := 1, records := [firstRecord] }⟩, log) ∧
      (∃ who n, .passesExhausted who n ∈ log)) ∧
    ∃ log log', unfold tree options none once =
        (.ok ⟨twice, true, { passes := 1, records := [secondRecord] }⟩, log) ∧
      (¬ ∃ who n, .passesExhausted who n ∈ log) ∧
      unfold tree options none twice = (.ok ⟨twice, false, {}⟩, log') := by
  have hgiven := passEdits_runs_outcome passEdits_given
  have honce := passEdits_runs_outcome passEdits_once
  obtain ⟨ts, hcheck, hts, hedits, _⟩ := passEdits_taken passEdits_once
  have hunsettled : Unsettled options (tree (Utf8.encode once)) (Utf8.encode once) :=
    unsettled_iff.mpr ⟨⟨ts, hcheck, hts, mt (edits_eq_nil_iff hedits).mpr (List.cons_ne_nil _ _)⟩,
      WideText.isPlain_ofString _⟩
  obtain ⟨ts, hcheck, hts, hedits, _⟩ := passEdits_taken passEdits_twice
  have hsettled : Settled options (tree (Utf8.encode twice)) (Utf8.encode twice) :=
    ⟨ts, hcheck, hts, (edits_eq_nil_iff hedits).mp rfl⟩
  constructor
  · obtain ⟨quiet, hruns, _⟩ :=
      runPasses_exhausted hunsettled 1 { passes := 1, records := [firstRecord] }
    have hunfold := unfold_of_runs (runPasses_succ hgiven (List.cons_ne_nil _ _)
      ((Edit.applyAll_singleton _ _).trans (congrArg Except.ok (by decide +kernel))) hruns)
      (Utf8.decode?_encode once)
    exact ⟨_, hunfold, (unfold_warns_iff_unsettled hunfold).1.mpr hunsettled⟩
  · obtain ⟨quiet, hruns, _⟩ :=
      runPasses_settled hsettled 0 1 { passes := 1, records := [secondRecord] }
    have hunfold := unfold_of_runs (runPasses_succ honce (List.cons_ne_nil _ _)
      ((Edit.applyAll_singleton _ _).trans (congrArg Except.ok (by decide +kernel))) hruns)
      (Utf8.decode?_encode twice)
    obtain ⟨hwarns, _, hquiet⟩ := unfold_warns_iff_unsettled hunfold
    have hnone := mt hwarns.mp hsettled.not_unsettled
    obtain ⟨log', hagain, _⟩ := hquiet hnone none
    exact ⟨_, log', hunfold, hnone, hagain⟩

end OnePass
end CondUnfold
