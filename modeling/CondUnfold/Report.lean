import CondUnfold.Bytes
import CondUnfold.Text.Json

/-! What has been unfolded and what has been refused, per file and over several files. -/

namespace CondUnfold

/-- A statement that was unfolded. -/
structure Record where
  /-- What it became: `if-chain`, `early-return` or `switch`. -/
  kind : String
  /-- What it was: `conditional`, `logical` or `return`. -/
  trigger : String
  line : Int
  /-- The number of statements that took its place. -/
  statements : Int
  /-- The depth of its decision tree. -/
  depth : Int
deriving DecidableEq, Repr

namespace Record

def ifChain : String := "if-chain"
def earlyReturn : String := "early-return"
def switch : String := "switch"

/-- The record in words. -/
def phrase (r : Record) : String :=
  "line " ++ toString r.line ++ ": " ++ r.trigger ++ " -> " ++ r.kind ++ " (" ++
    toString r.statements ++ (if r.statements == 1 then " statement" else " statements") ++
    ", depth " ++ toString r.depth ++ ")"

/-- The record as an item of a list. -/
def toLine (r : Record) : String := "- " ++ r.phrase

def toJson (r : Record) : Json :=
  .obj [("kind", .str r.kind), ("trigger", .str r.trigger), ("line", .num r.line),
    ("statements", .num r.statements), ("depth", .num r.depth)]

end Record

/-- A chain that could not become a switch, with the line of its statement. -/
structure RefusalNote where
  line : Int
  base : String
  reason : String
deriving DecidableEq, Repr

def RefusalNote.toJson (r : RefusalNote) : Json :=
  .obj [("line", .num r.line), ("base", .str r.base), ("reason", .str r.reason)]

/-- Add one to the count of a key in a list with increasing keys. -/
def bump (key : String) : List (String × Nat) → List (String × Nat)
  | [] => [(key, 1)]
  | (k, n) :: rest =>
    if key < k then (key, 1) :: (k, n) :: rest
    else if k < key then (k, n) :: bump key rest
    else (k, n + 1) :: rest

/-- How often each key occurs, by increasing key. -/
def tally (keys : List String) : List (String × Nat) := keys.foldl (fun t k => bump k t) []

/-- The count of a key. -/
def countOf (key : String) (counts : List (String × Nat)) : Nat := (counts.lookup key).getD 0

/-- What happened to one source, or to several that were merged. -/
structure Report where
  name : Option String := none
  passes : Int := 0
  records : List Record := []
  refusals : List RefusalNote := []
deriving DecidableEq, Repr

/-- The name, or a stand-in if it is absent or empty. -/
def nameOr (standIn : String) : Option String → String
  | none => standIn
  | some n => if n.isEmpty then standIn else n

namespace Report

/-- Add a record. -/
def register (r : Report) (record : Record) : Report :=
  { r with records := r.records ++ [record] }

/-- Add records. -/
def registerMany (r : Report) (records : List Record) : Report := records.foldl register r

/-- Add a refusal. -/
def refuse (r : Report) (note : RefusalNote) : Report :=
  { r with refusals := r.refusals ++ [note] }

/-- The number of statements that were unfolded. -/
def total (r : Report) : Nat := r.records.length

/-- How often each kind occurs. -/
def countByKind (r : Report) : List (String × Nat) := tally (r.records.map (·.kind))

/-- How often each trigger occurs. -/
def countByTrigger (r : Report) : List (String × Nat) := tally (r.records.map (·.trigger))

/-- The records of the deepest trees, the deepest first, up to position `limit`. Records of one
depth keep their order. -/
def deepest (r : Report) (limit : Int) : List Record :=
  sliceBefore (r.records.mergeSort fun a b => decide (b.depth ≤ a.depth)) limit

/-- Counts as a JSON object. -/
def countsJson (counts : List (String × Nat)) : Json :=
  .obj (counts.map fun c => (c.1, .num c.2))

/-- The report as a JSON object with the records up to position `limit`. -/
def toJson (r : Report) (limit : Int := 200) : Json :=
  .obj [("name", r.name.elim .null .str), ("passes", .num r.passes),
    ("total_rewrites", .num r.total), ("by_kind", countsJson r.countByKind),
    ("by_trigger", countsJson r.countByTrigger),
    ("records", .arr ((sliceBefore r.records limit).map Record.toJson)),
    ("refused_switches", .arr (r.refusals.map RefusalNote.toJson))]

/-- A summary, empty if nothing happened. -/
def summary (r : Report) (limit : Int := 5) : List String :=
  if r.records.isEmpty && r.refusals.isEmpty then []
  else
    let deep := r.deepest limit
    ["- " ++ nameOr "unfold summary" r.name ++ ": " ++ toString r.total ++ " rewrites in " ++
        toString r.passes ++ " passes"] ++
      (r.countByKind.map fun c => "  - " ++ c.1 ++ ": " ++ toString c.2) ++
      (if deep.isEmpty then []
        else "  - deepest chains:" :: deep.map fun d => "    * " ++ d.phrase) ++
      (if r.refusals.isEmpty then []
        else ["  - refused switches: " ++ toString r.refusals.length])

/-- Take over the records and refusals of another report, and the larger number of passes. -/
def absorb (r other : Report) : Report :=
  { r with
    records := r.records ++ other.records
    refusals := r.refusals ++ other.refusals
    passes := max r.passes other.passes }

/-- Several reports as one. -/
def merge (reports : List Report) (name : Option String := some "all inputs") : Report :=
  reports.foldl absorb { name }

/-- Several reports as a text. -/
def text (reports : List Report) (limit : Int := 5) : String :=
  let total := (merge reports).total
  "\n".intercalate
    (["conditional unfolding report", "files: " ++ toString reports.length,
        "total rewrites: " ++ toString total] ++
      reports.flatMap (·.summary limit) ++
      (if total == 0 then ["- no statements rewritten"] else []))

/-- Several reports as a JSON document. -/
def json (reports : List Report) : String :=
  let all := merge reports
  Json.text (.obj [("total_rewrites", .num all.total), ("by_kind", countsJson all.countByKind),
    ("by_trigger", countsJson all.countByTrigger), ("files", .arr (reports.map (·.toJson)))])

/-- The row of a report in a table. -/
def row (r : Report) : String :=
  let counts := r.countByKind
  "| " ++ nameOr "-" r.name ++ " | " ++ toString r.total ++ " | " ++
    toString (countOf Record.ifChain counts) ++ " | " ++
    toString (countOf Record.earlyReturn counts) ++ " | " ++
    toString (countOf Record.switch counts) ++ " |"

/-- Several reports as a Markdown table. -/
def markdown (reports : List Report) : String :=
  "\n".intercalate
    ("| file | rewrites | if-chain | early-return | switch |" :: "| --- | --- | --- | --- | --- |" ::
      reports.map row)

end Report
end CondUnfold
