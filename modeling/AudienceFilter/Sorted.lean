/-!
# Sorted lists and sets

Sorting by insertion, which keeps the order of equal elements, and sets as strictly increasing
lists.

* `mem_sortBy`, `mem_map_dedupBy`: sorting keeps every element, and dropping neighbours with equal
  keys keeps every key;
* `mem_insert`, `mem_ofList`: membership in a set.
-/

namespace AudienceFilter.Sorted

variable {α : Type}

/-- Puts `a` in front of the first element that it may precede. -/
def insertBy (le : α → α → Bool) (a : α) : List α → List α
  | [] => [a]
  | b :: rest => if le a b then a :: b :: rest else b :: insertBy le a rest

/-- The elements in the order of `le`; equal elements keep their order. -/
def sortBy (le : α → α → Bool) (xs : List α) : List α := xs.foldr (insertBy le) []

/-- Keeps the first of each run of equal neighbours. -/
def dedupBy (eq : α → α → Bool) : List α → List α
  | [] => []
  | a :: rest =>
    match dedupBy eq rest with
    | [] => [a]
    | b :: tail => if eq a b then a :: tail else a :: b :: tail

/-- Adds an element to a set given as an increasing list. -/
def insert [Ord α] (a : α) : List α → List α
  | [] => [a]
  | b :: rest =>
    match compare a b with
    | .lt => a :: b :: rest
    | .eq => b :: rest
    | .gt => b :: insert a rest

/-- The set of `new` together with a set. -/
def union [Ord α] (new set : List α) : List α := new.foldr insert set

/-- The set of the elements of a list. -/
def ofList [Ord α] (xs : List α) : List α := union xs []

theorem mem_insertBy {le : α → α → Bool} {a x : α} {xs : List α} :
    x ∈ insertBy le a xs ↔ x = a ∨ x ∈ xs := by
  induction xs with
  | nil => simp [insertBy]
  | cons b rest ih =>
    rw [insertBy]
    split
    · simp
    · simp only [List.mem_cons, ih]
      grind

theorem mem_sortBy {le : α → α → Bool} {x : α} {xs : List α} : x ∈ sortBy le xs ↔ x ∈ xs := by
  induction xs with
  | nil => simp [sortBy]
  | cons a xs ih =>
    have : sortBy le (a :: xs) = insertBy le a (sortBy le xs) := rfl
    rw [this, mem_insertBy, ih, List.mem_cons]

/-- Dropping neighbours with equal keys drops no key. -/
theorem mem_map_dedupBy {β : Type} [DecidableEq β] {f : α → β} {y : β} {xs : List α} :
    y ∈ (dedupBy (fun a b => f a == f b) xs).map f ↔ y ∈ xs.map f := by
  induction xs with
  | nil => simp [dedupBy]
  | cons a rest ih =>
    rw [dedupBy, List.map_cons, List.mem_cons, ← ih]
    split
    · next h => simp [h]
    · next b tail h =>
      rw [h]
      split
      · next hab => simp [eq_of_beq hab]
      · simp

/-- Dropping equal neighbours drops no element. -/
theorem mem_dedupBy [DecidableEq α] {x : α} {xs : List α} :
    x ∈ dedupBy (fun a b => a == b) xs ↔ x ∈ xs := by
  have h : x ∈ (dedupBy (fun a b => id a == id b) xs).map id ↔ x ∈ xs.map id := mem_map_dedupBy
  rwa [List.map_id, List.map_id] at h

variable [Ord α] [Std.LawfulEqOrd α]

theorem mem_insert {a x : α} {set : List α} : x ∈ insert a set ↔ x = a ∨ x ∈ set := by
  induction set with
  | nil => simp [insert]
  | cons b rest ih =>
    rw [insert]
    split
    · simp
    · next h => simp [Std.LawfulEqOrd.eq_of_compare h]
    · simp only [List.mem_cons, ih]
      grind

theorem mem_union {x : α} {new set : List α} : x ∈ union new set ↔ x ∈ new ∨ x ∈ set := by
  induction new with
  | nil => simp [union]
  | cons a rest ih =>
    have : union (a :: rest) set = insert a (union rest set) := rfl
    rw [this, mem_insert, ih, List.mem_cons, or_assoc]

theorem mem_ofList {x : α} {xs : List α} : x ∈ ofList xs ↔ x ∈ xs := by
  simp [ofList, mem_union]

end AudienceFilter.Sorted
