import WebAudit.Number.Binary
import WebAudit.Text.Basic

/-!
How evenly the bytes of a text are distributed.
-/

namespace WebAudit.Text

/-- How often each byte value that occurs does so, by rising value. -/
def byteCounts (bytes : List UInt8) : List Nat :=
  ((List.range 256).map fun b => bytes.count b.toUInt8).filter (· != 0)

/-- The Shannon entropy of the bytes of a text, in bits for each byte. An empty
text has none. -/
def entropy (cs : List Char) : Number.Binary :=
  let all := bytes cs
  if all.isEmpty then Number.Binary.zero .double
  else
    let total := all.length.toFloat
    let terms := (byteCounts all).map fun n =>
      let share := n.toFloat / total
      (-share) * share.log2
    .ofFloat (terms.foldl (· + ·) (-0.0))

end WebAudit.Text
