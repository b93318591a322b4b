/-
Maps laid over each other.

Where both maps have a map under a key, the two are merged; anywhere else the upper one's value
counts.  The lower map's keys keep their order, and the upper one's new keys follow in theirs.

* `Data.mergeEntries` — the entries of a map with another map laid over it;
* `Data.mergeAll` — maps laid over each other, the first one lowest.
-/
import StyleImport.Data.Basic

namespace StyleImport

namespace Data

mutual

/-- A value with another one laid over it. -/
def mergeOver (lower : Option Data) (upper : Data) : Data :=
  match upper with
  | .map upper =>
    match lower with
    | some (.map lower) => .map (mergeEntries lower upper)
    | _ => .map upper
  | .scalar s => .scalar s
  | .list items => .list items

/-- The entries of a map with those of another map laid over it. -/
def mergeEntries (lower : List (Scalar × Data)) : List (Scalar × Data) → List (Scalar × Data)
  | [] => lower
  | (k, v) :: upper =>
    mergeEntries
      (Entries.putBy Scalar.sameKey k
        (mergeOver (Entries.getBy? Scalar.sameKey k lower) v) lower)
      upper

end

/-- Maps laid over each other, the first one lowest. -/
def mergeAll (maps : List (List (Scalar × Data))) : List (Scalar × Data) :=
  maps.foldl mergeEntries []

end Data

end StyleImport
