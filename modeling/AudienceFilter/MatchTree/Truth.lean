import AudienceFilter.Expression.Truth
import AudienceFilter.MatchTree

/-!
# The truth of match trees

Whether a match tree holds once its leaves are true or false. A group is read like a
combination, so that `MatchTree.holds` sees what is combined and not where it is looked up.

* `MatchTree.holdsEach_eq_map`: the members of a combination are valued one by one.
-/

namespace AudienceFilter.MatchTree

mutual

/-- Whether the tree holds if exactly the given leaves do. -/
def holds (v : Leaf → Bool) : MatchTree → Bool
  | .leaf l => v l
  | .combined j children => j.truth (holdsEach v children)
  | .group j _ children => j.truth (holdsEach v children)

/-- Whether each of the trees holds. -/
def holdsEach (v : Leaf → Bool) : List MatchTree → List Bool
  | [] => []
  | t :: rest => holds v t :: holdsEach v rest

end

theorem holdsEach_eq_map (v : Leaf → Bool) (ts : List MatchTree) :
    holdsEach v ts = ts.map (holds v) := by
  induction ts with
  | nil => rfl
  | cons t ts ih => rw [holdsEach, ih, List.map_cons]

end AudienceFilter.MatchTree
