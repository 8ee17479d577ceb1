import CondUnfold.Proofs.FileWork
import CondUnfold.Proofs.FixedPoint
import CondUnfold.Syntax.Parse

/-!
# Checking and rewriting in place

A check finds nothing to unfold if unfolding gives back the text of every input. Rewriting in place
then writes these texts, and since a source is read with line feeds in the place of all line ends,
this is what becomes of the files (`Rewritten`). So a file is left as it was exactly if it has no
carriage return.
-/

namespace CondUnfold

open Except

/-! ## Line ends -/

theorem return_not_mem_unifyLineEnds (cs : List Char) : '\r' ∉ unifyLineEnds cs := by
  fun_induction unifyLineEnds cs with
  | case1 => exact List.not_mem_nil
  | case2 rest ih | case3 rest _ ih =>
    exact List.not_mem_cons_of_ne_of_not_mem (by decide) ih
  | case4 c rest _ hc ih => exact List.not_mem_cons_of_ne_of_not_mem (fun h => hc h.symm) ih

theorem unifyLineEnds_of_not_mem {cs : List Char} (h : '\r' ∉ cs) : unifyLineEnds cs = cs := by
  fun_induction unifyLineEnds cs with
  | case1 => rfl
  | case2 rest ih => exact absurd List.mem_cons_self h
  | case3 rest _ ih => exact absurd List.mem_cons_self h
  | case4 c rest _ hc ih => rw [ih fun hmem => h (List.mem_cons_of_mem c hmem)]

theorem unifyLineEnds_eq_iff {cs : List Char} : unifyLineEnds cs = cs ↔ '\r' ∉ cs :=
  ⟨fun h => h ▸ return_not_mem_unifyLineEnds cs, unifyLineEnds_of_not_mem⟩

/-- A carriage return is one byte, which occurs in no other character. -/
theorem mem_utf8EncodeChar {c : Char} : 13 ∈ String.utf8EncodeChar c ↔ '\r' = c := by
  constructor
  · intro h
    have hnat : (13 : UInt8).toNat = c.toNat := (Utf8.coded_encode c).ascii h (by decide)
    exact Char.toNat_inj.mp hnat
  · rintro rfl
    decide

theorem return_mem_encode {s : String} : 13 ∈ Utf8.encode s ↔ '\r' ∈ s.toList := by
  simp only [Utf8.encode, List.mem_flatMap, mem_utf8EncodeChar, exists_eq_right']

theorem sourceText?_encode {content : Bytes} {text : String} (h : sourceText? content = some text) :
    sourceText? (Utf8.encode text) = some text := by
  obtain ⟨s, _, rfl⟩ := Option.map_eq_some_iff.mp h
  rw [sourceText?, Utf8.decode?_encode, Option.map_some, String.toList_ofList,
    unifyLineEnds_of_not_mem (return_not_mem_unifyLineEnds s.toList)]

/-- The content of a file with line feeds in the place of all line ends. What is no text stays as it
is. -/
def unifiedContent (content : Bytes) : Bytes := (sourceText? content).elim content Utf8.encode

theorem unifiedContent_of_text {content : Bytes} {text : String}
    (h : sourceText? content = some text) : unifiedContent content = Utf8.encode text := by
  rw [unifiedContent, h, Option.elim_some]

/-- **A text keeps its bytes exactly if it has no carriage return.** -/
theorem unifiedContent_eq_iff {content : Bytes} {text : String}
    (h : sourceText? content = some text) : unifiedContent content = content ↔ 13 ∉ content := by
  rw [unifiedContent_of_text h]
  obtain ⟨s, hs, rfl⟩ := Option.map_eq_some_iff.mp h
  rw [← Utf8.encode_of_decode? hs, return_mem_encode, ← unifyLineEnds_eq_iff]
  constructor
  · intro heq
    have hdecode := congrArg Utf8.decode? heq
    rw [Utf8.decode?_encode, Utf8.decode?_encode, Option.some.injEq] at hdecode
    exact String.toList_ofList.symm.trans (congrArg String.toList hdecode)
  · intro heq
    rw [heq, String.ofList_toList]

/-! ## Files -/

/-- The entry with line feeds in the place of all line ends. -/
def Entry.unified : Entry → Entry
  | .file content => .file (unifiedContent content)
  | .folder => .folder

/-- The places to which paths lead. -/
def Folder.places (f : Folder) (ps : List Path) : List Location :=
  ps.filterMap fun p => (f.locate p).toOption

/-- The second folder has other line ends in the files under the given paths, and is like the first
one everywhere else. -/
def Rewritten (f : Folder) (ps : List Path) (f' : Folder) : Prop :=
  ∀ l, f'.find? l = if l ∈ f.places ps then (f.find? l).map Entry.unified else f.find? l

namespace Rewritten

variable {f f' : Folder} {ps : List Path} {p : Path} {l : Location} {content : Bytes}
  {text : String}

theorem refl (f : Folder) : Rewritten f [] f := fun _ => (if_neg List.not_mem_nil).symm

/-- A file that is a text holds the same source before and after. -/
theorem entry (h : Rewritten f ps f') (hl : f.find? l = some (.file content))
    (htext : sourceText? content = some text) :
    ∃ content', f'.find? l = some (.file content') ∧ sourceText? content' = some text := by
  rw [h l, hl]
  split
  · exact ⟨Utf8.encode text, congrArg (some <| Entry.file ·) (unifiedContent_of_text htext),
      sourceText?_encode htext⟩
  · exact ⟨content, rfl, htext⟩

theorem sameShape (h : Rewritten f ps f') : f.SameShape f' := by
  intro l
  rw [h l]
  split
  · cases f.find? l with
    | none => exact .inl rfl
    | some e =>
      cases e with
      | folder => exact .inl rfl
      | file content => exact .inr ⟨content, unifiedContent content, rfl, rfl⟩
  · exact .inl rfl

/-- **Writing back the source of a file unifies its line ends, and changes nothing else.** -/
theorem write (h : Rewritten f ps f') (hread : f.read p = .ok content)
    (htext : sourceText? content = some text) :
    (∃ content', f'.read p = .ok content' ∧ sourceText? content' = some text) ∧
      ∃ f'', f'.write p (Utf8.encode text) = .ok f'' ∧ Rewritten f (ps ++ [p]) f'' := by
  obtain ⟨l, hlocate, hl⟩ := Folder.read_eq_ok.mp hread
  obtain ⟨content', hl', htext'⟩ := h.entry hl htext
  have hlocate' : f'.locate p = .ok l := (h.sameShape.locate_eq p).symm.trans hlocate
  refine ⟨⟨content', Folder.read_eq_ok.mpr ⟨l, hlocate', hl'⟩, htext'⟩, _,
    Folder.write_of_file hlocate' hl' _, ?_⟩
  have hplaces : f.places (ps ++ [p]) = f.places ps ++ [l] := by
    rw [Folder.places, List.filterMap_append]
    exact congrArg (_ ++ ·) (by rw [List.filterMap_cons, hlocate]; rfl)
  intro l'
  rw [Folder.find?_put (Folder.isGiven_of_file hl'), hplaces]
  by_cases hne : l' = l
  · subst hne
    rw [if_pos rfl, if_pos (List.mem_append_right _ (List.mem_singleton_self _)), hl,
      Option.map_some, Entry.unified, unifiedContent_of_text htext]
  · rw [if_neg hne, h l']
    simp only [List.mem_append, List.mem_singleton, hne, or_false]

end Rewritten

/-! ## Commands -/

namespace Command

variable {parse : Bytes → Node} {c : Command} {w w' : Session} {ps : List Path}

/-- The input is a source that unfolding gives back as it is. -/
def Keeps (parse : Bytes → Node) (c : Command) (folder : Folder) (p : Path) : Prop :=
  ∃ u, c.Unfolds parse folder p u ∧ u.changed = false

theorem unfoldInputs_check (hcheck : c.check = true) {results : List (Path × Unfolded)}
    (h : (c.unfoldInputs parse ps).Runs w (.ok (some results)) w') :
    w'.folder = w.folder ∧ results.map (·.1) = ps ∧ ∀ x ∈ results, c.Unfolds parse w.folder x.1 x.2 := by
  induction ps generalizing w results with
  | nil =>
    obtain ⟨heq, rfl⟩ := Work.pure_runs_ok.mp h
    cases heq
    exact ⟨rfl, rfl, nofun⟩
  | cons p ps ih =>
    obtain ⟨u?, w₁, hinput, h⟩ := Work.bind_runs_ok.mp h
    cases u? with
    | none => cases h
    | some u =>
      obtain ⟨hunfolds, hfolder⟩ := Unfolds.of_check hcheck hinput
      obtain ⟨us?, w₂, hinputs, h⟩ := Work.bind_runs_ok.mp h
      cases us? with
      | none => cases h
      | some us =>
        obtain ⟨heq, rfl⟩ := Work.pure_runs_ok.mp h
        cases heq
        obtain ⟨hfolder', hpaths, hall⟩ := ih hinputs
        rw [hfolder] at hfolder' hall
        refine ⟨hfolder', congrArg (p :: ·) hpaths, List.forall_mem_cons.mpr ⟨hunfolds, hall⟩⟩

/-- **Inputs that unfolding gives back are rewritten one after the other.** -/
theorem unfoldInputs_rewrite (hcheck : c.check = false) (hplace : c.inPlace = true)
    {folder : Folder} {done : List Path} (hw : Rewritten folder done w.folder)
    (hps : ∀ p ∈ ps, c.Keeps parse folder p) :
    ∃ results w', (c.unfoldInputs parse ps).Runs w (.ok (some results)) w' ∧
      Rewritten folder (done ++ ps) w'.folder := by
  induction ps generalizing w done with
  | nil => exact ⟨[], w, Work.runs_pure _ w, by rwa [List.append_nil]⟩
  | cons p ps ih =>
    obtain ⟨⟨u, ⟨content, text, log, hread, htext, hunfold⟩, hchanged⟩, hps⟩ :=
      List.forall_mem_cons.mp hps
    obtain ⟨⟨content', hread', htext'⟩, folder', hwrite, hrewritten⟩ := hw.write hread htext
    have hsource : u.source = text := by
      obtain ⟨_, _, _, hdiffers⟩ := unfold_eq_ok hunfold
      exact bne_eq_false_iff_eq.mp (hdiffers.symm.trans hchanged)
    rw [← hsource] at hwrite
    have hunfolds : c.Unfolds parse w.folder p u := ⟨content', text, log, hread', htext', hunfold⟩
    obtain ⟨w₁, hinput, rfl⟩ := hunfolds.rewrite hcheck hplace hwrite
    obtain ⟨results, w', hinputs, hrest⟩ := ih hrewritten hps
    refine ⟨(p, u) :: results, w', hinput.bind (hinputs.bind (Work.runs_pure _ _)), ?_⟩
    rw [List.append_cons]
    exact hrest

theorem forM_print_folder {α : Type} {text : α → String} {as : List α}
    (h : (as.forM fun a => Work.print (text a)).Runs w (.ok ()) w') : w'.folder = w.folder := by
  induction as generalizing w with
  | nil =>
    obtain ⟨_, rfl⟩ := Work.pure_runs_ok.mp h
    rfl
  | cons a as ih =>
    obtain ⟨_, w₁, hprint, h⟩ := Work.bind_runs_ok.mp h
    rw [Work.print_runs_ok.mp hprint] at h
    have hfolder := ih h
    exact hfolder

theorem conclude_check (hreport : c.report = none) (hcheck : c.check = true)
    {results : List (Path × Unfolded)} (h : (c.conclude results).Runs w (.ok exitDone) w') :
    w'.folder = w.folder ∧ ∀ x ∈ results, x.2.changed = false := by
  simp only [conclude, hreport, hcheck, if_true] at h
  obtain ⟨_, w₁, hprint, h⟩ := Work.bind_runs_ok.mp h
  obtain ⟨hcode, rfl⟩ := Work.pure_runs_ok.mp h
  refine ⟨forM_print_folder hprint, ?_⟩
  split at hcode
  next hempty =>
    intro x hx
    have hfilter := List.filter_eq_nil_iff.mp (List.isEmpty_iff.mp hempty) x hx
    exact Bool.eq_false_iff.mpr hfilter
  next => cases hcode

theorem conclude_rewrite (hreport : c.report = none) (hcheck : c.check = false)
    (hplace : c.inPlace = true) (results : List (Path × Unfolded)) (w : Session) :
    ∃ w', (c.conclude results).Runs w (.ok exitDone) w' ∧ w'.folder = w.folder := by
  simp only [conclude, hreport, hcheck, hplace]
  refine ⟨_, (Work.print_runs_ok.mpr rfl).bind (Work.runs_pure _ _), rfl⟩

/-- **A check that finds nothing leaves the files alone**, and finds that every input is kept. -/
theorem run_check (hreport : c.report = none) (hcheck : c.check = true) {folder : Folder}
    {s : Session} (h : c.run parse folder = (.ok exitDone, s)) :
    s.folder = folder ∧ ∀ p ∈ c.inputs, c.Keeps parse folder p := by
  obtain ⟨results?, w₁, hinputs, h⟩ := Work.bind_runs_ok.mp h
  cases results? with
  | none => cases h
  | some results =>
    obtain ⟨hfolder, hpaths, hunfolds⟩ := unfoldInputs_check hcheck hinputs
    obtain ⟨hfolder', hchanged⟩ := conclude_check hreport hcheck h
    refine ⟨hfolder'.trans hfolder, ?_⟩
    intro p hp
    rw [← hpaths] at hp
    obtain ⟨x, hx, rfl⟩ := List.mem_map.mp hp
    exact ⟨x.2, hunfolds x hx, hchanged x hx⟩

theorem run_rewrite (hreport : c.report = none) (hcheck : c.check = false)
    (hplace : c.inPlace = true) {folder : Folder} (hkeeps : ∀ p ∈ c.inputs, c.Keeps parse folder p) :
    ∃ s, c.run parse folder = (.ok exitDone, s) ∧ Rewritten folder c.inputs s.folder := by
  obtain ⟨results, w₁, hinputs, hrewritten⟩ :=
    unfoldInputs_rewrite (w := { folder }) hcheck hplace (.refl folder) hkeeps
  obtain ⟨s, hconclude, hfolder⟩ := conclude_rewrite hreport hcheck hplace results w₁
  exact ⟨s, hinputs.bind hconclude, hfolder ▸ hrewritten⟩

/-- **After a check that finds nothing to unfold, rewriting in place changes line ends at most.**
Whatever the parser is, it succeeds, writes the inputs with line feeds in the place of all line ends, and leaves everything
else alone. So an input keeps its bytes exactly if it has no carriage return. -/
theorem rewriting_checked_changes_line_ends (parse : Bytes → Node) (c : Command)
    (hreport : c.report = none) {folder : Folder} {s : Session}
    (hcheck : ({ c with check := true } : Command).run parse folder = (.ok exitDone, s)) :
    s.folder = folder ∧
    ∃ s', ({ c with check := false, inPlace := true } : Command).run parse folder =
        (.ok exitDone, s') ∧
      Rewritten folder c.inputs s'.folder ∧
      ∀ p ∈ c.inputs, ∃ content, folder.read p = .ok content ∧
        s'.folder.read p = .ok (unifiedContent content) ∧
        (s'.folder.read p = folder.read p ↔ 13 ∉ content) := by
  obtain ⟨hfolder, hkeeps⟩ := run_check (c := { c with check := true }) hreport rfl hcheck
  obtain ⟨s', hrun, hrewritten⟩ :=
    run_rewrite (c := { c with check := false, inPlace := true }) hreport rfl rfl hkeeps
  refine ⟨hfolder, s', hrun, hrewritten, ?_⟩
  intro p hp
  obtain ⟨_, ⟨content, text, _, hread, htext, _⟩, _⟩ := hkeeps p hp
  have hread' : s'.folder.read p = .ok (unifiedContent content) := by
    obtain ⟨l, hlocate, hl⟩ := Folder.read_eq_ok.mp hread
    have hmem : l ∈ folder.places c.inputs :=
      List.mem_filterMap.mpr ⟨p, hp, by rw [hlocate]; rfl⟩
    refine Folder.read_eq_ok.mpr ⟨l, (hrewritten.sameShape.locate_eq p).symm.trans hlocate, ?_⟩
    rw [hrewritten l, if_pos hmem, hl]
    rfl
  refine ⟨content, hread, hread', ?_⟩
  rw [hread, hread', Except.ok.injEq]
  exact unifiedContent_eq_iff htext

end Command

namespace CarriageReturns

def crlf : Path := ⟨"", ["crlf.js"]⟩
def plain : Path := ⟨"", ["plain.js"]⟩

def crlfContent : Bytes :=
  Utf8.encode (ifHead "ready" ++ "\r\n  start();\r\n" ++ blockEnd ++ "\r\n")

def plainContent : Bytes := Utf8.encode "a ? b : c, d;\n"

/-- Two programs with nothing to unfold, of which one has line ends of two characters. -/
def folder : Folder where
  entries := [(["crlf.js"], .file crlfContent), (["plain.js"], .file plainContent)]

def command (options : Options) : Command where
  inputs := [crlf, plain]
  output := none
  report := none
  inPlace := false
  check := true
  verbose := false
  options

/-- The check finds nothing to unfold, and rewriting in place changes a file all the same. -/
theorem rewriting_checked_changes_file :
    ((command {}).run parseSource folder).1.toOption = some Command.exitDone ∧
      (({ command {} with check := false, inPlace := true } : Command).run parseSource
        folder).2.folder.read crlf ≠ folder.read crlf := by
  decide +kernel

/-- Only the file with carriage returns is changed. -/
theorem rewriting_checked_keeps_plain :
    ∃ s s', (command {}).run parseSource folder = (.ok Command.exitDone, s) ∧
      ({ command {} with check := false, inPlace := true } : Command).run parseSource folder =
        (.ok Command.exitDone, s') ∧
      s'.folder.read crlf =
        .ok (Utf8.encode (ifHead "ready" ++ "\n  start();\n" ++ blockEnd ++ "\n")) ∧
      s'.folder.read plain = folder.read plain := by
  have hcode : ((command {}).run parseSource folder).1.toOption = some Command.exitDone := by decide +kernel
  cases hrun : (command {}).run parseSource folder with
  | mk outcome s =>
    rw [hrun] at hcode
    cases outcome with
    | error e => cases hcode
    | ok code =>
      cases hcode
      obtain ⟨_, s', hrewrite, _, hinputs⟩ :=
        Command.rewriting_checked_changes_line_ends parseSource (command {}) rfl hrun
      obtain ⟨content, hread, hcrlf, _⟩ := hinputs crlf List.mem_cons_self
      obtain ⟨content', hread', _, hplain⟩ :=
        hinputs plain (List.mem_cons_of_mem _ List.mem_cons_self)
      have hcontent : crlfContent = content := by
        exact Except.ok.inj hread
      have hcontent' : plainContent = content' := by
        exact Except.ok.inj hread'
      rw [← hcontent] at hcrlf
      rw [← hcontent'] at hplain
      refine ⟨s, s', rfl, hrewrite, hcrlf.trans (by decide +kernel), hplain.mpr (by decide)⟩

end CarriageReturns

end CondUnfold
