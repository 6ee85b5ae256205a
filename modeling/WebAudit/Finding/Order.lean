import WebAudit.Finding.Encoding

/-!
The report order of findings: the most severe first, then by category, place,
line, kind and message; details and payload break what ties remain.
-/

namespace WebAudit

/-- No value comes before any value. -/
def orderOption {α : Type} (order : α → α → Ordering) : Option α → Option α → Ordering
  | none, none => .eq
  | none, some _ => .lt
  | some _, none => .gt
  | some a, some b => order a b

namespace Finding

def payloadText (f : Finding) : String := f.payload.toJson.compact

def order (a b : Finding) : Ordering :=
  (compare b.severity a.severity).then <|
  (compare a.category b.category).then <|
  (compare a.location.key b.location.key).then <|
  (orderOption compare a.location.line? b.location.line?).then <|
  (compare a.kind b.kind).then <|
  (compare a.message b.message).then <|
  (orderOption compare a.details b.details).then <|
  compare a.payloadText b.payloadText

def le (a b : Finding) : Bool := a.order b != .gt

/-- Findings in report order; those that compare equal keep their order. -/
def sorted (fs : List Finding) : List Finding := fs.mergeSort le

/-- The first finding of each key, in order; `seen` holds the keys so far. -/
def firsts (seen : List Key) : List Finding → List Finding
  | [] => []
  | f :: rest =>
    if seen.contains f.key then firsts seen rest else f :: firsts (f.key :: seen) rest

/-- One finding for each key, the first in report order, in report order. -/
def deduplicate (fs : List Finding) : List Finding := firsts [] (sorted fs)

/-- Drops each finding that is about the same thing as the one kept before
it. -/
def dropRepeats : List Finding → List Finding
  | [] => []
  | f :: rest =>
    f :: dropRepeatsAfter f rest
where
  dropRepeatsAfter (last : Finding) : List Finding → List Finding
    | [] => []
    | g :: rest =>
      if g.isDuplicateOf last then dropRepeatsAfter last rest else g :: dropRepeatsAfter g rest

end Finding

end WebAudit
