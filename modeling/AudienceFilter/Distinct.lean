/-!
# Lists without repetition

Lists that grow at the end by elements they do not hold yet.

* `mem_push`, `mem_append`: membership in the grown list;
* `append_append`, `append_assoc`: what is added at once may be added in parts;
* `nodup_ofList`, `ofList_of_nodup`: lists without repetition are those that stay as they are.
-/

namespace AudienceFilter.Distinct

variable {α : Type} [DecidableEq α]

/-- Adds an element at the end unless the list holds it. -/
def push (xs : List α) (a : α) : List α := if a ∈ xs then xs else xs ++ [a]

/-- Adds the elements that the list does not hold yet, in their order. -/
def append (xs ys : List α) : List α := ys.foldl push xs

/-- The first occurrence of each element, in their order. -/
def ofList (xs : List α) : List α := append [] xs

theorem mem_push {x a : α} {xs : List α} : x ∈ push xs a ↔ x ∈ xs ∨ x = a := by
  unfold push
  split <;> grind

theorem mem_append {x : α} {xs ys : List α} : x ∈ append xs ys ↔ x ∈ xs ∨ x ∈ ys := by
  induction ys generalizing xs with
  | nil => simp [append]
  | cons y ys ih =>
    have : append xs (y :: ys) = append (push xs y) ys := rfl
    rw [this, ih, mem_push, List.mem_cons, or_assoc]

theorem mem_ofList {x : α} {xs : List α} : x ∈ ofList xs ↔ x ∈ xs := by
  simp [ofList, mem_append]

theorem append_append (xs ys zs : List α) :
    append (append xs ys) zs = append xs (ys ++ zs) := List.foldl_append.symm

theorem append_push (xs ys : List α) (z : α) :
    append xs (push ys z) = push (append xs ys) z := by
  by_cases hz : z ∈ ys
  · rw [push, if_pos hz, push, if_pos (mem_append.2 (.inr hz))]
  · rw [push, if_neg hz, ← append_append]
    rfl

/-- Repetitions may be dropped before a list is appended. -/
theorem append_assoc (xs ys zs : List α) :
    append xs (append ys zs) = append (append xs ys) zs := by
  induction zs generalizing ys with
  | nil => rfl
  | cons z zs ih =>
    calc append xs (append (push ys z) zs)
        = append (append xs (push ys z)) zs := ih (push ys z)
      _ = append (push (append xs ys) z) zs := by rw [append_push]

theorem ofList_append_ofList (xs ys zs : List α) :
    ofList (xs ++ ofList ys ++ zs) = ofList (xs ++ ys ++ zs) := by
  simp only [ofList, ← append_append, append_assoc]
  rfl

theorem nodup_append {xs ys : List α} (h : xs.Nodup) : (append xs ys).Nodup := by
  induction ys generalizing xs with
  | nil => exact h
  | cons y ys ih =>
    refine ih ?_
    unfold push
    split
    · exact h
    · next hy => grind

theorem nodup_ofList (xs : List α) : (ofList xs).Nodup := nodup_append List.nodup_nil

/-- A list without repetition is appended as it is, if the elements are new. -/
theorem append_of_nodup {xs ys : List α} (hn : ys.Nodup) (hnew : ∀ y ∈ ys, y ∉ xs) :
    append xs ys = xs ++ ys := by
  induction ys generalizing xs with
  | nil => simp [append]
  | cons y ys ih =>
    have hpush : push xs y = xs ++ [y] := if_neg (hnew y List.mem_cons_self)
    have : append xs (y :: ys) = append (push xs y) ys := rfl
    rw [this, hpush, ih (List.nodup_cons.1 hn).2 (by grind), List.append_assoc]
    rfl

theorem ofList_of_nodup {xs : List α} (h : xs.Nodup) : ofList xs = xs :=
  append_of_nodup h fun _ _ => List.not_mem_nil

theorem flatMap_of_self {β : Type} {f : β → List β} {xs : List β} (h : ∀ x ∈ xs, f x = [x]) :
    xs.flatMap f = xs := by
  rw [List.flatMap_def, List.map_congr_left h, ← List.flatMap_def, List.flatMap_singleton']

end AudienceFilter.Distinct
