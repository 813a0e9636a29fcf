import CooperativeLisp.Text.Cluster

/-!
A typed line with its backspaces applied: each takes back the cluster before it. The length of a
cluster is kept as one byte, so a backspace takes back a cluster's length modulo 256, and there is
no text if that would cut a character in two.
-/

namespace CooperativeLisp.Text

/-- The number of bytes of a text. -/
def byteLength (cs : List Char) : Nat :=
  cs.foldl (fun n c => n + c.utf8Size) 0

/-- The text, last character first, without so many bytes at its end. -/
def takeBack : Nat → List Char → Option (List Char)
  | 0, kept => some kept
  | _ + 1, [] => none
  | n + 1, c :: kept => if c.utf8Size ≤ n + 1 then takeBack (n + 1 - c.utf8Size) kept else none

/-- A line as far as it is typed: its characters, last one first, and the lengths of the clusters
that backspaces can still take back, last one first. -/
structure TypedLine where
  kept : List Char
  lengths : List Nat

/-- The line after one more cluster, which may be a backspace. -/
def TypedLine.next (line : TypedLine) (cluster : List Char) : Option TypedLine :=
  if cluster = ['\x08'] then
    match line.lengths with
    | [] => some line
    | n :: lengths => (takeBack n line.kept).map fun kept => { kept, lengths }
  else
    some {
      kept := cluster.reverse ++ line.kept
      lengths := byteLength cluster % 256 :: line.lengths }

/-- The text as it stands after its backspaces. -/
def withoutBackspaces (s : String) : Option String := do
  let line ← (clusters s.toList).foldlM TypedLine.next { kept := [], lengths := [] }
  return String.ofList line.kept.reverse

end CooperativeLisp.Text
