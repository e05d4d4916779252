import AudienceFilter.Distinct

/-!
# Classes of a list

Elements of a list that share a key form a class. `merge` lets whole classes be replaced by one
element each, which takes the place of the first member of its class.
-/

namespace AudienceFilter.Classes

variable {κ α ε : Type} [DecidableEq κ]

/-- The keys of the classes in the order of their first members. -/
def keys (keyed : List (Option κ × α)) : List κ := Distinct.ofList (keyed.filterMap Prod.fst)

/-- The members of a class in their order. -/
def members (keyed : List (Option κ × α)) (k : κ) : List α :=
  keyed.filterMap fun (k', a) => if k' = some k then some a else none

/-- Puts the replacement of a class in the place of its first member and leaves out the other
members. `seen` holds the keys of the classes replaced so far. -/
def collapse (replacement? : κ → Option α) (seen : List κ) : List (Option κ × α) → List α
  | [] => []
  | (none, a) :: rest => a :: collapse replacement? seen rest
  | (some k, a) :: rest =>
    match replacement? k with
    | none => a :: collapse replacement? seen rest
    | some r =>
      if k ∈ seen then collapse replacement? seen rest
      else r :: collapse replacement? (k :: seen) rest

/-- The replacement of a class among those made. -/
def lookup (made : List (κ × Option α)) (k : κ) : Option α :=
  (made.find? fun entry => entry.1 = k).bind Prod.snd

/-- Replaces classes: `f` is asked for the replacement of each class, in order, and may keep a
class as it is. -/
def merge (f : κ → List α → Except ε (Option α)) (keyed : List (Option κ × α)) :
    Except ε (List α) := do
  let made ← (keys keyed).mapM fun k => (f k (members keyed k)).map fun r => (k, r)
  return collapse (lookup made) [] keyed

end AudienceFilter.Classes
