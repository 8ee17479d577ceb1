/-! Texts in which surrogates may stand by themselves. An indent that comes from outside may be such a
text; it can be joined with other texts like any other, but it has no encoding. -/

namespace CondUnfold

/-- A code point: a character, or one of the surrogates from U+D800 on. -/
inductive CodePoint where
  | char (c : Char)
  | surrogate (n : Fin 0x800)
deriving DecidableEq, Repr

/-- The character, if the code point is one. -/
def CodePoint.char? : CodePoint → Option Char
  | .char c => some c
  | .surrogate _ => none

/-- A text in which there may be surrogates. -/
abbrev WideText := List CodePoint

namespace WideText

/-- A text as a wide one. -/
def ofString (s : String) : WideText := s.toList.map .char

instance : Coe String WideText := ⟨ofString⟩

/-- The text, if there is no surrogate in it. -/
def text? (t : WideText) : Option String := (t.mapM CodePoint.char?).map String.ofList

/-- There is no surrogate in the text. -/
def IsPlain (t : WideText) : Prop := ∀ p ∈ t, p.char?.isSome

instance : DecidablePred IsPlain := fun t => inferInstanceAs (Decidable (∀ p ∈ t, _))

theorem ofString_append (s t : String) : ofString (s ++ t) = ofString s ++ ofString t := by
  rw [ofString, String.toList_append, List.map_append]
  rfl

theorem ofString_ne_nil {s : String} (h : s ≠ "") : ofString s ≠ [] := by
  simpa [ofString] using h

theorem isPlain_ofString (s : String) : (ofString s).IsPlain := by
  intro p hp
  obtain ⟨c, _, rfl⟩ := List.mem_map.mp hp
  rfl

theorem isPlain_append {t u : WideText} : (t ++ u).IsPlain ↔ t.IsPlain ∧ u.IsPlain :=
  List.forall_mem_append

theorem text?_ofString (s : String) : (ofString s).text? = some s := by
  have hmap (cs : List Char) : (cs.map CodePoint.char).mapM CodePoint.char? = some cs := by
    induction cs with
    | nil => rfl
    | cons c cs ih => rw [List.map_cons, List.mapM_cons, ih]; rfl
  rw [text?, ofString, hmap, Option.map_some, String.ofList_toList]

theorem isPlain_of_mapM {t : WideText} {cs : List Char} (h : t.mapM CodePoint.char? = some cs) :
    t.IsPlain := by
  induction t generalizing cs with
  | nil => exact List.forall_mem_nil _
  | cons p t ih =>
    rw [List.mapM_cons] at h
    obtain ⟨c, hc, h⟩ := Option.bind_eq_some_iff.mp h
    obtain ⟨cs', hcs, _⟩ := Option.bind_eq_some_iff.mp h
    exact List.forall_mem_cons.mpr ⟨Option.isSome_of_mem hc, ih hcs⟩

/-- A wide text without surrogates is a text. -/
theorem IsPlain.exists_eq {t : WideText} (h : t.IsPlain) : ∃ s, t = ofString s := by
  induction t with
  | nil => exact ⟨"", rfl⟩
  | cons p t ih =>
    obtain ⟨hp, ht⟩ := List.forall_mem_cons.mp h
    obtain ⟨s, rfl⟩ := ih ht
    cases p with
    | surrogate n => cases hp
    | char c =>
      refine ⟨String.ofList (c :: s.toList), ?_⟩
      rw [ofString, ofString, String.toList_ofList, List.map_cons]

/-- **A wide text is a text exactly if there is no surrogate in it.** -/
theorem exists_text?_iff {t : WideText} : (∃ s, t.text? = some s) ↔ t.IsPlain := by
  constructor
  · rintro ⟨s, h⟩
    obtain ⟨cs, hcs, _⟩ := Option.map_eq_some_iff.mp h
    exact isPlain_of_mapM hcs
  · intro h
    obtain ⟨s, rfl⟩ := h.exists_eq
    exact ⟨s, text?_ofString s⟩

end WideText
end CondUnfold
