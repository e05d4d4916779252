/-!
# Templates with placeholders

A template holds placeholders, each a name between `${` and the next closing brace. `resolve`
replaces them from left to right by the values of their names; an inserted value is not looked
at again, and an opening `${` that is never closed is plain text.
-/

namespace AudienceFilter.Text

/-- The characters before the first closing brace and those behind it. -/
def cutAtBrace : List Char → Option (List Char × List Char)
  | [] => none
  | c :: rest =>
    if c = '\x7d' then some ([], rest)
    else (cutAtBrace rest).map fun (name, after) => (c :: name, after)

theorem length_of_cutAtBrace {cs name after : List Char} (h : cutAtBrace cs = some (name, after)) :
    after.length < cs.length := by
  induction cs generalizing name with
  | nil => simp [cutAtBrace] at h
  | cons c rest ih =>
    rw [cutAtBrace] at h
    split at h
    · simp_all
    · obtain ⟨⟨n, a⟩, hn, he⟩ := Option.map_eq_some_iff.1 h
      simp only [Prod.mk.injEq] at he
      have := ih (he.2 ▸ hn)
      simp only [List.length_cons]
      omega

/-- A template taken apart: plain characters and the names of placeholders. -/
inductive Piece where
  | literal (c : Char)
  | placeholder (name : List Char)
deriving DecidableEq, Repr

/-- The placeholder that the characters start with, if they do, and what follows it. -/
def placeholder? : List Char → Option (List Char × List Char)
  | '$' :: '\x7b' :: rest => cutAtBrace rest
  | _ => none

theorem length_of_placeholder? {cs name after : List Char}
    (h : placeholder? cs = some (name, after)) : after.length < cs.length := by
  unfold placeholder? at h
  split at h
  · have := length_of_cutAtBrace h
    simp only [List.length_cons]
    omega
  · simp at h

/-- Takes a template apart. Once a `${` stays open nothing behind it can close either, so all of
that is plain. -/
def pieces : List Char → List Piece
  | [] => []
  | c :: rest =>
    match _h : placeholder? (c :: rest) with
    | some (name, after) => .placeholder name :: pieces after
    | none => .literal c :: pieces rest
termination_by cs => cs.length
decreasing_by
  · exact length_of_placeholder? _h
  · simp

/-- The text of the pieces under the given values; a name without a value is handed back. -/
def fill (value? : String → Option String) : List Piece → Except String (List Char)
  | [] => .ok []
  | .literal c :: rest => do
    let tail ← fill value? rest
    return c :: tail
  | .placeholder name :: rest =>
    match value? (String.ofList name) with
    | none => .error (String.ofList name)
    | some v => do
      let tail ← fill value? rest
      return v.toList ++ tail

/-- Replaces the placeholders of a template, or names the first one without a value. -/
def resolve (value? : String → Option String) (template : String) : Except String String := do
  let cs ← fill value? (pieces template.toList)
  return String.ofList cs

end AudienceFilter.Text
