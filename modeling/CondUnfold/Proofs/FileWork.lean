import CondUnfold.CommandLine.Run
import CondUnfold.Proofs.Fallible

/-!
# Work on files

What work on files does from a given session on (`Work.Runs`), step by step, and what becomes of the
other places when a file is written (`Folder.find?_put`). A folder in which the same places hold
files and the same places hold folders leads every path to the same place (`Folder.locate_congr`).
-/

namespace CondUnfold

open Except

/-! ## Folders -/

namespace Folder

variable {f f' : Folder} {l l' : Location} {e : Entry} {p : Path}

theorem lookup_filter_ne {entries : List (Location × Entry)} (h : l' ≠ l) :
    (entries.filter (·.1 != l)).lookup l' = entries.lookup l' := by
  induction entries with
  | nil => rfl
  | cons x entries ih =>
    obtain ⟨k, e⟩ := x
    by_cases hk : k = l
    · subst hk
      rw [List.filter_cons_of_neg (by simp), ih, List.lookup_cons, beq_eq_false_iff_ne.mpr h]
    · rw [List.filter_cons_of_pos (by simpa using hk), List.lookup_cons, List.lookup_cons, ih]

/-- **What is put at a place is there, and the other places are as they were.** -/
theorem find?_put (hgiven : isGiven l = false) (l' : Location) :
    (f.put l e).find? l' = if l' = l then some e else f.find? l' := by
  unfold find?
  by_cases h : l' = l
  · subst h
    simp [hgiven, put]
  · simp only [put, List.lookup_cons, beq_eq_false_iff_ne.mpr h, lookup_filter_ne h, if_neg h]

theorem isGiven_of_file {content : Bytes} (h : f.find? l = some (.file content)) :
    isGiven l = false := by
  rw [Bool.eq_false_iff]
  intro hgiven
  rw [find?, if_pos hgiven] at h
  cases h

/-- The two folders have files in the same places, and folders in the same places. -/
def SameShape (f f' : Folder) : Prop :=
  ∀ l, f.find? l = f'.find? l ∨
    ∃ content content', f.find? l = some (.file content) ∧ f'.find? l = some (.file content')

theorem SameShape.follow_eq (h : f.SameShape f') (l : Location) (names : List String) :
    f.follow l names = f'.follow l names := by
  induction names generalizing l with
  | nil => rfl
  | cons name names ih =>
    unfold follow
    rcases h l with heq | ⟨_, _, hl, hl'⟩
    · rw [heq]
      split
      · rfl
      · rfl
      · exact ih _
    · rw [hl, hl']

theorem SameShape.locate_eq (h : f.SameShape f') (p : Path) : f.locate p = f'.locate p :=
  h.follow_eq _ _

theorem read_eq_ok {content : Bytes} :
    f.read p = .ok content ↔ ∃ l, f.locate p = .ok l ∧ f.find? l = some (.file content) := by
  simp only [read, bind_eq_ok]
  refine exists_congr fun l => and_congr_right fun _ => ?_
  split <;> simp_all

theorem write_of_file {content : Bytes} (hp : f.locate p = .ok l)
    (hl : f.find? l = some (.file content)) (content' : Bytes) :
    f.write p content' = .ok (f.put l (.file content')) := by
  simp only [write, hp, bind_ok_eq, hl]

end Folder

/-! ## Work -/

namespace Work

variable {α β : Type} {w w' w₁ : Session}

/-- From the session `w` on, the work ends with `r` and leaves the session `w'`. -/
def Runs (x : Work α) (w : Session) (r : Except Failure α) (w' : Session) : Prop :=
  (x.run w).run = (r, w')

theorem runs_pure (a : α) (w : Session) : Runs (pure a) w (.ok a) w := rfl

theorem Runs.bind {x : Work α} {f : α → Work β} {a : α} {r : Except Failure β}
    (hx : x.Runs w (.ok a) w₁) (hf : (f a).Runs w₁ r w') : (x >>= f).Runs w r w' := by
  change (ExceptT.bindCont f (x.run w).1 (x.run w).2) = _
  rw [show x.run w = (.ok a, w₁) from hx]
  exact hf

/-- Work in two steps succeeds exactly if both steps do. -/
theorem bind_runs_ok {x : Work α} {f : α → Work β} {b : β} :
    (x >>= f).Runs w (.ok b) w' ↔ ∃ a w₁, x.Runs w (.ok a) w₁ ∧ (f a).Runs w₁ (.ok b) w' := by
  constructor
  · intro h
    change (ExceptT.bindCont f (x.run w).1 (x.run w).2) = _ at h
    cases hx : x.run w with
    | mk r w₁ =>
      rw [hx] at h
      cases r with
      | error e => cases h
      | ok a => exact ⟨a, w₁, hx, h⟩
  · rintro ⟨a, w₁, hx, hf⟩
    exact hx.bind hf

theorem pure_runs_ok {a b : α} : Runs (pure a) w (.ok b) w' ↔ a = b ∧ w = w' := by
  constructor
  · intro h
    cases h
    exact ⟨rfl, rfl⟩
  · rintro ⟨rfl, rfl⟩
    exact runs_pure a w

theorem get_runs_ok {a : Session} : Runs get w (.ok a) w' ↔ a = w ∧ w' = w := by
  constructor
  · intro h
    cases h
    exact ⟨rfl, rfl⟩
  · rintro ⟨rfl, rfl⟩
    rfl

theorem modify_runs_ok {f : Session → Session} :
    Runs (modify f) w (.ok ()) w' ↔ w' = f w := by
  constructor
  · intro h
    cases h
    rfl
  · rintro rfl
    rfl

/-- A look at the files changes nothing. -/
theorem consulting_runs_ok {f : Folder → Except FileError α} {a : α} :
    (consulting f).Runs w (.ok a) w' ↔ f w.folder = .ok a ∧ w' = w := by
  simp only [consulting, bind_runs_ok, get_runs_ok]
  constructor
  · rintro ⟨s, w₁, ⟨hs, hw⟩, h⟩
    rw [hs, hw] at h
    cases hf : f w.folder with
    | error e => rw [hf] at h; cases h
    | ok b =>
      rw [hf] at h
      obtain ⟨rfl, rfl⟩ := pure_runs_ok.mp h
      exact ⟨rfl, rfl⟩
  · rintro ⟨hf, rfl⟩
    refine ⟨w', w', ⟨rfl, rfl⟩, ?_⟩
    rw [hf]
    exact runs_pure a w'

theorem changing_runs_ok {f : Folder → Except FileError Folder} :
    (changing f).Runs w (.ok ()) w' ↔
      ∃ folder, f w.folder = .ok folder ∧ w' = { w with folder } := by
  simp only [changing, bind_runs_ok, get_runs_ok]
  constructor
  · rintro ⟨s, w₁, ⟨hs, hw⟩, h⟩
    rw [hs, hw] at h
    cases hf : f w.folder with
    | error e => rw [hf] at h; cases h
    | ok folder =>
      rw [hf] at h
      exact ⟨folder, rfl, modify_runs_ok.mp h⟩
  · rintro ⟨folder, hf, rfl⟩
    refine ⟨w, w, ⟨rfl, rfl⟩, ?_⟩
    rw [hf]
    exact modify_runs_ok.mpr rfl

theorem notify_runs_ok {ns : List Notice} :
    (notify ns).Runs w (.ok ()) w' ↔ w' = { w with notices := w.notices ++ ns } :=
  modify_runs_ok

theorem print_runs_ok {text : String} :
    (print text).Runs w (.ok ()) w' ↔ w' = { w with printed := w.printed ++ text } :=
  modify_runs_ok

end Work

/-! ## Sources -/

/-- The text of a file as a source: all line ends are line feeds. -/
def sourceText? (content : Bytes) : Option String :=
  (Utf8.decode? content).map fun s => String.ofList (unifyLineEnds s.toList)

theorem readSource_runs_ok {p : Path} {w w' : Session} {text : String} :
    (readSource p).Runs w (.ok text) w' ↔
      (∃ content, w.folder.read p = .ok content ∧ sourceText? content = some text) ∧ w' = w := by
  simp only [readSource, Work.bind_runs_ok, Work.consulting_runs_ok]
  constructor
  · rintro ⟨content, _, ⟨hread, rfl⟩, h⟩
    cases hdecode : Utf8.decode? content with
    | none => rw [hdecode] at h; cases h
    | some s =>
      rw [hdecode] at h
      obtain ⟨rfl, rfl⟩ := Work.pure_runs_ok.mp h
      exact ⟨⟨content, hread, by rw [sourceText?, hdecode, Option.map_some]⟩, rfl⟩
  · rintro ⟨⟨content, hread, htext⟩, rfl⟩
    obtain ⟨s, hdecode, rfl⟩ := Option.map_eq_some_iff.mp htext
    refine ⟨content, w', ⟨hread, rfl⟩, ?_⟩
    rw [hdecode]
    exact Work.runs_pure _ w'

namespace Command

variable {parse : Bytes → Node} {c : Command} {p : Path} {w w' : Session} {u : Unfolded}

/-- The input is read as a source, and unfolding the source gives `u`. -/
def Unfolds (parse : Bytes → Node) (c : Command) (folder : Folder) (p : Path) (u : Unfolded) :
    Prop :=
  ∃ content text log, folder.read p = .ok content ∧ sourceText? content = some text ∧
    unfold parse c.options (some p.text) text = (.ok u, log)

/-- A check leaves the files alone. -/
theorem Unfolds.of_check (hcheck : c.check = true)
    (h : (c.unfoldInput parse p).Runs w (.ok (some u)) w') :
    c.Unfolds parse w.folder p u ∧ w'.folder = w.folder := by
  obtain ⟨text, w₁, hsource, h⟩ := Work.bind_runs_ok.mp h
  obtain ⟨⟨content, hread, htext⟩, hw₁⟩ := readSource_runs_ok.mp hsource
  cases hunfold : unfold parse c.options (some p.text) text with
  | mk result log =>
    rw [hw₁, hunfold] at h
    obtain ⟨_, w₂, hnotify, h⟩ := Work.bind_runs_ok.mp h
    rw [Work.notify_runs_ok.mp hnotify] at h
    cases result with
    | error e => cases e <;> cases h
    | ok u' =>
      obtain ⟨_, w₃, hnotify, h⟩ := Work.bind_runs_ok.mp h
      rw [Work.notify_runs_ok.mp hnotify, hcheck] at h
      obtain ⟨heq, rfl⟩ := Work.pure_runs_ok.mp h
      cases heq
      exact ⟨⟨content, text, log, hread, htext, hunfold⟩, rfl⟩

/-- Rewriting in place writes the result where the source was. -/
theorem Unfolds.rewrite (h : c.Unfolds parse w.folder p u) (hcheck : c.check = false)
    (hplace : c.inPlace = true) {folder : Folder}
    (hwrite : w.folder.write p (Utf8.encode u.source) = .ok folder) :
    ∃ w', (c.unfoldInput parse p).Runs w (.ok (some u)) w' ∧ w'.folder = folder := by
  obtain ⟨content, text, log, hread, htext, hunfold⟩ := h
  have hsource := readSource_runs_ok.mpr ⟨⟨content, hread, htext⟩, rfl⟩
  let notices := w.notices ++ c.visible log ++ c.visible [.fileDone p.text u.report.total]
  have hemit : (c.emit p u.source).Runs { w with notices } (.ok ()) { w with folder, notices } := by
    rw [emit, if_pos hplace]
    exact Work.changing_runs_ok.mpr ⟨folder, hwrite, rfl⟩
  refine ⟨{ w with folder, notices }, hsource.bind ?_, rfl⟩
  rw [hunfold]
  refine (Work.notify_runs_ok.mpr rfl).bind ((Work.notify_runs_ok.mpr rfl).bind ?_)
  rw [hcheck]
  exact hemit.bind (Work.runs_pure _ _)

end Command

end CondUnfold
