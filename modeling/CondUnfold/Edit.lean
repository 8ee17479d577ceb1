import CondUnfold.Bytes
import CondUnfold.Stmt.Writer

/-! Replacing statements in a source by their spans, with every byte elsewhere kept. -/

namespace CondUnfold

/-- Where a statement stands in a source. -/
structure Site where
  start : Int
  stop : Int
  /-- The indentation of the line on which the statement begins. -/
  indent : WideText
  /-- Is the statement the only body of an `if`, a loop or a label? What takes its place is then
  put into a block, since a bare `if` there would bind a following `else`. -/
  needsBlock : Bool := false
  line : Int := 0
deriving DecidableEq, Repr

/-- Bytes to put in the place of a span. -/
structure Edit where
  start : Int
  stop : Int
  replacement : Bytes
deriving DecidableEq, Repr

/-- The text that takes the place of the statement at a site. -/
def Site.replacement (site : Site) (layout : Layout) (items : List Item) :
    Except Error WideText := do
  let lines ← Item.renderLines layout items
  if site.needsBlock then
    let inner := site.indent ++ layout.indent
    return .ofString (blockHead ++ "\n") ++ inner ++ indentFragment lines inner ++ .ofString "\n" ++
      site.indent ++ .ofString blockEnd
  return indentFragment lines site.indent

/-- The edit that puts items in the place of the statement at a site. There is none if a surrogate
stands in what would take its place. -/
def Site.edit (site : Site) (layout : Layout) (items : List Item) : Except Error Edit := do
  let replacement ← site.replacement layout items
  match replacement.text? with
  | some text => return ⟨site.start, site.stop, Utf8.encode text⟩
  | none => throw .notEncodable

namespace Edit

/-- Carry out one edit. -/
def apply (e : Edit) (source : Bytes) : Bytes :=
  sliceBefore source e.start ++ e.replacement ++ sliceFrom source e.stop

/-- Edits in the order of their starts; edits with one start keep their order. -/
def sort (edits : List Edit) : List Edit := edits.mergeSort fun e f => decide (e.start ≤ f.start)

/-- The first two neighbours of which the second begins before the first ends. -/
def overlap? : List Edit → Option (Edit × Edit)
  | e :: f :: rest => if f.start < e.stop then some (e, f) else overlap? (f :: rest)
  | _ => none

/-- Carry out edits that do not overlap. The last one comes first, so that the positions of the
others stay right. -/
def applyAll (edits : List Edit) (source : Bytes) : Except Error Bytes :=
  let sorted := sort edits
  match overlap? sorted with
  | some (e, f) => .error (.overlappingEdits e.start e.stop f.start f.stop)
  | none => .ok (sorted.foldr apply source)

end Edit

/-- The source with items in the place of the statement at a site. -/
def Site.splice (site : Site) (layout : Layout) (items : List Item) (source : Bytes) :
    Except Error Bytes := do
  let edit ← site.edit layout items
  Edit.applyAll [edit] source

/-- The spaces and tabs with which the line of a position begins, up to that position. -/
def lineIndent (source : Bytes) (offset : Int) : String :=
  String.ofList ((Utf8.decodeLossy (lastLine (sliceBefore source offset))).takeWhile fun c =>
    c == ' ' || c == '\t')

end CondUnfold
