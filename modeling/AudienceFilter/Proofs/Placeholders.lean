import AudienceFilter.Context

/-!
# Placeholders from left to right

A template falls into literal text and placeholders in exactly one way (`Text.Parts`), and its
placeholders are replaced along these parts, so nothing that was inserted is looked at again:

* `Text.Parts.pieces_text`: taking a template apart finds its parts;
* `Text.Parts.exists_text_eq`, `Text.Parts.eq_of_text_eq`: every text has exactly one set of parts;
* `Text.Parts.resolve_text`, `Text.Parts.resolve_text_of_missing`: what the placeholders are
  replaced by, and which one is reported if some have no value.
-/

namespace AudienceFilter

namespace Text

/-! ## Parts of a template -/

/-- What a placeholder starts with. -/
def opening : List Char := ['$', '\x7b']

/-- Whether there is an opening with a closing brace somewhere behind it. -/
def HasPlaceholder (cs : List Char) : Prop :=
  ∃ before after, cs = before ++ opening ++ after ∧ '\x7d' ∈ after

/-- Literal text up to the first opening, and the name up to the first closing brace behind it. -/
@[ext]
structure Segment where
  literal : String
  name : String
  literal_plain : ¬opening <:+: literal.toList
  name_plain : '\x7d' ∉ name.toList

/-- Literal text and placeholders in turn, and the text behind the last placeholder. -/
@[ext]
structure Parts where
  segments : List Segment
  last : String
  last_plain : ¬HasPlaceholder last.toList

namespace Parts

/-- The parts put together, with the given texts in place of the placeholders. -/
def fill (value : String → String) (t : Parts) : String :=
  t.segments.foldr (fun s rest => s.literal ++ value s.name ++ rest) t.last

/-- The template that the parts belong to. -/
def text (t : Parts) : String := t.fill fun name => "$\x7b" ++ name ++ "\x7d"

/-- The names of the placeholders, from left to right. -/
def names (t : Parts) : List String := t.segments.map Segment.name

/-- The parts, with the literal text character by character. -/
def pieces (t : Parts) : List Piece :=
  t.segments.foldr
    (fun s rest => s.literal.toList.map .literal ++ .placeholder s.name.toList :: rest)
    (t.last.toList.map .literal)

end Parts

/-! ## Taking a template apart -/

theorem cutAtBrace_append {name rest : List Char} (h : '\x7d' ∉ name) :
    cutAtBrace (name ++ '\x7d' :: rest) = some (name, rest) := by
  induction name with
  | nil => simp [cutAtBrace]
  | cons c name ih =>
    rw [List.mem_cons, not_or] at h
    rw [List.cons_append, cutAtBrace, if_neg (Ne.symm h.1), ih h.2, Option.map_some]

theorem cutAtBrace_of_not_mem {cs : List Char} (h : '\x7d' ∉ cs) : cutAtBrace cs = none := by
  induction cs with
  | nil => rfl
  | cons c cs ih =>
    rw [List.mem_cons, not_or] at h
    rw [cutAtBrace, if_neg (Ne.symm h.1), ih h.2, Option.map_none]

/-- A placeholder is an opening, a name and a closing brace, the first one behind the opening. -/
theorem placeholder?_opening {name rest : List Char} (h : '\x7d' ∉ name) :
    placeholder? (opening ++ (name ++ '\x7d' :: rest)) = some (name, rest) :=
  cutAtBrace_append h

theorem exists_of_placeholder? {cs name rest : List Char}
    (h : placeholder? cs = some (name, rest)) :
    cs = opening ++ (name ++ '\x7d' :: rest) ∧ '\x7d' ∉ name := by
  unfold placeholder? at h
  split at h
  · next after =>
    by_cases hmem : '\x7d' ∈ after
    · obtain ⟨n, r, rfl, hn⟩ := List.eq_append_cons_of_mem hmem
      rw [cutAtBrace_append hn] at h
      cases h
      exact ⟨rfl, hn⟩
    · rw [cutAtBrace_of_not_mem hmem] at h
      cases h
  · cases h

/-- Where no placeholder starts there is no opening, or it stays open. -/
theorem not_mem_of_placeholder? {after : List Char} (h : placeholder? (opening ++ after) = none) :
    '\x7d' ∉ after := by
  intro hmem
  obtain ⟨name, rest, rfl, hname⟩ := List.eq_append_cons_of_mem hmem
  rw [placeholder?_opening hname] at h
  cases h

theorem pieces_placeholder {name rest : List Char} (h : '\x7d' ∉ name) :
    Text.pieces (opening ++ (name ++ '\x7d' :: rest)) = .placeholder name :: Text.pieces rest := by
  have hplaceholder : placeholder? (opening ++ (name ++ '\x7d' :: rest)) = some (name, rest) :=
    placeholder?_opening h
  rw [opening, List.cons_append] at hplaceholder ⊢
  rw [Text.pieces]
  split
  · next heq =>
    rw [hplaceholder] at heq
    cases heq
    rfl
  · next heq =>
    rw [hplaceholder] at heq
    cases heq

theorem pieces_literal {c : Char} {cs : List Char} (h : placeholder? (c :: cs) = none) :
    Text.pieces (c :: cs) = .literal c :: Text.pieces cs := by
  rw [Text.pieces]
  split
  · next heq =>
    rw [h] at heq
    cases heq
  · rfl

/-- No placeholder starts in literal text in front of one: its last character and the opening
behind it are no opening. -/
theorem placeholder?_of_literal {c : Char} {literal after : List Char}
    (h : ¬opening <:+: c :: literal) :
    placeholder? (c :: (literal ++ (opening ++ after))) = none := by
  cases hplaceholder : placeholder? (c :: (literal ++ (opening ++ after))) with
  | none => rfl
  | some found =>
    obtain ⟨heq, -⟩ := exists_of_placeholder? hplaceholder
    obtain ⟨rfl, hnext⟩ := List.cons.inj heq
    cases literal with
    | nil => exact absurd (List.cons.inj hnext).1 (by decide)
    | cons d literal =>
      obtain ⟨rfl, -⟩ := List.cons.inj hnext
      exact absurd (List.prefix_append opening literal).isInfix h

theorem pieces_segment {literal name rest : List Char} (hliteral : ¬opening <:+: literal)
    (hname : '\x7d' ∉ name) :
    Text.pieces (literal ++ (opening ++ (name ++ '\x7d' :: rest))) =
      literal.map .literal ++ .placeholder name :: Text.pieces rest := by
  induction literal with
  | nil => exact pieces_placeholder hname
  | cons c literal ih =>
    have htail : ¬opening <:+: literal := fun h => hliteral (h.trans (List.suffix_cons c _).isInfix)
    rw [List.cons_append, pieces_literal (placeholder?_of_literal hliteral), ih htail]
    rfl

/-- Behind the last placeholder all is literal. -/
theorem pieces_last {cs : List Char} (h : ¬HasPlaceholder cs) :
    Text.pieces cs = cs.map .literal := by
  induction cs with
  | nil => rw [Text.pieces]; rfl
  | cons c cs ih =>
    have hnone : placeholder? (c :: cs) = none := by
      cases hplaceholder : placeholder? (c :: cs) with
      | none => rfl
      | some found =>
        obtain ⟨heq, -⟩ := exists_of_placeholder? hplaceholder
        exact absurd ⟨[], _, heq, by simp⟩ h
    have htail : ¬HasPlaceholder cs := by
      rintro ⟨before, after, rfl, hmem⟩
      exact h ⟨c :: before, after, rfl, hmem⟩
    rw [pieces_literal hnone, ih htail, List.map_cons]

namespace Parts

theorem toList_text_cons {s : Segment} {segments : List Segment} {last : String}
    {h : ¬HasPlaceholder last.toList} :
    (text ⟨s :: segments, last, h⟩).toList = s.literal.toList ++
      (opening ++ (s.name.toList ++ '\x7d' :: (text ⟨segments, last, h⟩).toList)) := by
  simp [text, fill, opening]

/-- Taking a template apart finds its parts. -/
theorem pieces_text (t : Parts) : Text.pieces t.text.toList = t.pieces := by
  obtain ⟨segments, last, hlast⟩ := t
  induction segments with
  | nil => exact pieces_last hlast
  | cons s segments ih =>
    rw [toList_text_cons, pieces_segment s.literal_plain s.name_plain, ih]
    rfl

/-! ## One set of parts for each text -/

theorem literals_inj {xs ys : List Char} {n m : List Char} {ps qs : List Piece}
    (h : xs.map Piece.literal ++ .placeholder n :: ps =
      ys.map Piece.literal ++ .placeholder m :: qs) :
    xs = ys ∧ n = m ∧ ps = qs := by
  induction xs generalizing ys with
  | nil =>
    cases ys with
    | nil => simpa using h
    | cons y ys => simp at h
  | cons x xs ih =>
    cases ys with
    | nil => simp at h
    | cons y ys =>
      simp only [List.map_cons, List.cons_append, List.cons.injEq, Piece.literal.injEq] at h
      obtain ⟨hxs, hn, hps⟩ := ih h.2
      exact ⟨by rw [h.1, hxs], hn, hps⟩

/-- Parts are settled by what a template of theirs is taken apart into. -/
theorem eq_of_pieces_eq {t u : Parts} (h : t.pieces = u.pieces) : t = u := by
  obtain ⟨segments, last, hlast⟩ := t
  obtain ⟨segments', last', hlast'⟩ := u
  -- A placeholder on one side only would be among literal characters on the other.
  have hmixed : ∀ {cs n : List Char} {l : List Char} {ps : List Piece},
      cs.map Piece.literal ≠ l.map Piece.literal ++ .placeholder n :: ps := by
    intro cs n l ps heq
    have hmem : Piece.placeholder n ∈ cs.map Piece.literal := by simp [heq]
    simp at hmem
  induction segments generalizing segments' with
  | nil =>
    cases segments' with
    | nil =>
      have hlasts : last.toList = last'.toList := by
        refine List.map_inj_right ?_ |>.1 h
        exact fun x y hxy => Piece.literal.inj hxy
      exact Parts.ext rfl (String.toList_inj.1 hlasts)
    | cons s' segments' => exact absurd h hmixed
  | cons s segments ih =>
    cases segments' with
    | nil => exact absurd h.symm hmixed
    | cons s' segments' =>
      obtain ⟨hliteral, hname, hrest⟩ := literals_inj h
      have hs : s = s' := Segment.ext (String.toList_inj.1 hliteral) (String.toList_inj.1 hname)
      have ht := ih segments' hrest
      simp only [Parts.mk.injEq] at ht ⊢
      exact ⟨by rw [hs, ht.1], ht.2⟩

/-- A text has at most one set of parts. -/
theorem eq_of_text_eq {t u : Parts} (h : t.text = u.text) : t = u := by
  refine eq_of_pieces_eq ?_
  rw [← pieces_text, ← pieces_text, h]

/-- A character in front of a template belongs to its first literal text, unless a placeholder
starts there. -/
theorem exists_text_eq_cons {c : Char} {t : Parts}
    (h : placeholder? (c :: t.text.toList) = none) :
    ∃ u : Parts, u.text.toList = c :: t.text.toList := by
  obtain ⟨segments, last, hlast⟩ := t
  cases segments with
  | nil =>
    refine ⟨⟨[], String.ofList (c :: last.toList), ?_⟩, String.toList_ofList⟩
    rw [String.toList_ofList]
    rintro ⟨before, after, heq, hmem⟩
    cases before with
    | nil =>
      have hopen : c :: last.toList = opening ++ after := heq
      change placeholder? (c :: last.toList) = none at h
      rw [hopen] at h
      exact not_mem_of_placeholder? h hmem
    | cons b before => exact hlast ⟨before, after, (List.cons.inj heq).2, hmem⟩
  | cons s segments =>
    have hliteral : ¬opening <:+: (String.ofList (c :: s.literal.toList)).toList := by
      rw [String.toList_ofList]
      intro hinfix
      rcases List.infix_cons_iff.1 hinfix with hprefix | hinfix
      · obtain ⟨after, hafter⟩ := hprefix
        rw [toList_text_cons, ← List.cons_append, ← hafter, List.append_assoc] at h
        exact not_mem_of_placeholder? h (by simp)
      · exact s.literal_plain hinfix
    refine ⟨⟨⟨_, s.name, hliteral, s.name_plain⟩ :: segments, last, hlast⟩, ?_⟩
    rw [toList_text_cons, toList_text_cons, String.toList_ofList, List.cons_append]

/-- Every text has a set of parts. -/
theorem exists_text_eq (template : String) : ∃ t : Parts, t.text = template := by
  have hchars : ∀ cs : List Char, ∃ t : Parts, t.text.toList = cs := by
    intro cs
    -- The cases are those of taking the characters apart: none, a placeholder, a literal one.
    induction cs using Text.pieces.induct with
    | case1 =>
      refine ⟨⟨[], "", ?_⟩, rfl⟩
      rintro ⟨before, after, heq, -⟩
      simp [opening] at heq
    | case2 c cs name rest h ih =>
      obtain ⟨t, rfl⟩ := ih
      obtain ⟨heq, hname⟩ := exists_of_placeholder? h
      have hliteral : ¬opening <:+: "".toList := by decide
      have hname : '\x7d' ∉ (String.ofList name).toList := by rwa [String.toList_ofList]
      refine ⟨⟨⟨"", String.ofList name, hliteral, hname⟩ :: t.segments, t.last, t.last_plain⟩, ?_⟩
      rw [toList_text_cons, heq]
      simp only [String.toList_ofList]
      rfl
    | case3 c cs h ih =>
      obtain ⟨t, rfl⟩ := ih
      exact exists_text_eq_cons h
  obtain ⟨t, ht⟩ := hchars template.toList
  exact ⟨t, String.toList_inj.1 ht⟩

end Parts

/-! ## Replacing placeholders -/

variable {value? : String → Option String}

theorem fill_literals (cs : List Char) (ps : List Piece) :
    fill value? (cs.map .literal ++ ps) = (fill value? ps).map (cs ++ ·) := by
  induction cs with
  | nil =>
    rw [List.map_nil, List.nil_append]
    cases fill value? ps <;> rfl
  | cons c cs ih =>
    rw [List.map_cons, List.cons_append, fill, ih]
    cases fill value? ps <;> rfl

theorem fill_segment {value : String} {s : Segment} (h : value? s.name = some value)
    (ps : List Piece) :
    fill value? (s.literal.toList.map .literal ++ .placeholder s.name.toList :: ps) =
      (fill value? ps).map ((s.literal ++ value).toList ++ ·) := by
  rw [fill_literals, fill, String.ofList_toList, h]
  cases fill value? ps with
  | error e => rfl
  | ok cs =>
    have happend :
        s.literal.toList ++ (value.toList ++ cs) = (s.literal ++ value).toList ++ cs := by
      rw [String.toList_append, List.append_assoc]
    exact congrArg Except.ok happend

theorem fill_segment_of_missing {s : Segment} (h : value? s.name = none) (ps : List Piece) :
    fill value? (s.literal.toList.map .literal ++ .placeholder s.name.toList :: ps) =
      .error s.name := by
  rw [fill_literals, fill, String.ofList_toList, h]
  rfl

namespace Parts

/-- With a value for every name, the values stand where the placeholders stood. -/
theorem resolve_text {value : String → String} {t : Parts}
    (h : ∀ n ∈ t.names, value? n = some (value n)) :
    resolve value? t.text = .ok (t.fill value) := by
  have hfill : Text.fill value? t.pieces = .ok (t.fill value).toList := by
    obtain ⟨segments, last, hlast⟩ := t
    induction segments with
    | nil =>
      rw [show pieces ⟨[], last, hlast⟩ = last.toList.map .literal ++ [] from
        (List.append_nil _).symm, fill_literals]
      exact congrArg Except.ok (List.append_nil _)
    | cons s segments ih =>
      have ih := ih fun n hn => h n (List.mem_cons_of_mem _ hn)
      calc Text.fill value? (pieces ⟨s :: segments, last, hlast⟩)
          = (Text.fill value? (pieces ⟨segments, last, hlast⟩)).map
              ((s.literal ++ value s.name).toList ++ ·) :=
            fill_segment (h s.name List.mem_cons_self) _
        _ = .ok ((s.literal ++ value s.name).toList ++
              (fill value ⟨segments, last, hlast⟩).toList) := by
            rw [ih]
            rfl
        _ = .ok (fill value ⟨s :: segments, last, hlast⟩).toList :=
            congrArg Except.ok String.toList_append.symm
  rw [resolve, pieces_text, hfill]
  exact congrArg Except.ok String.ofList_toList

/-- Otherwise the first name without a value is handed back. -/
theorem resolve_text_of_missing {t : Parts} {n : String}
    (h : t.names.find? (fun n => (value? n).isNone) = some n) :
    resolve value? t.text = .error n := by
  have hfill : Text.fill value? t.pieces = .error n := by
    obtain ⟨segments, last, hlast⟩ := t
    induction segments with
    | nil => cases h
    | cons s segments ih =>
      rw [names, List.map_cons, List.find?_cons] at h
      cases hvalue : value? s.name with
      | none =>
        rw [hvalue] at h
        obtain rfl : s.name = n := Option.some.inj h
        exact fill_segment_of_missing hvalue _
      | some value =>
        rw [hvalue] at h
        refine (fill_segment hvalue _).trans ?_
        have ih : Text.fill value? (pieces ⟨segments, last, hlast⟩) = .error n := ih h
        exact congrArg (Except.map _) ih
  rw [resolve, pieces_text, hfill]
  rfl

end Parts

end Text

/-! ## Templates in a context -/

/-- Every text falls into literal text and placeholders in exactly one way. If every name has a
value, the text is resolved by putting the values in place of the placeholders, and otherwise the
first name without a value is reported; a text without a complete placeholder stays as it is. -/
theorem Context.resolve_leftToRight (ctx : Context) (template : String) :
    ∃ t : Text.Parts, t.text = template ∧ (∀ u : Text.Parts, u.text = template → u = t) ∧
      (∀ value : String → String, (∀ n ∈ t.names, ctx.valueOf? n = some (value n)) →
        ctx.resolve template = .ok (t.fill value)) ∧
      (∀ n, t.names.find? (fun n => (ctx.valueOf? n).isNone) = some n →
        ctx.resolve template = .error (.unresolvedVariable n)) ∧
      (¬Text.HasPlaceholder template.toList → ctx.resolve template = .ok template) := by
  obtain ⟨t, rfl⟩ := Text.Parts.exists_text_eq template
  refine ⟨t, rfl, fun u hu => Text.Parts.eq_of_text_eq hu, fun value h => ?_, fun n h => ?_,
    fun h => ?_⟩
  · rw [resolve, Text.Parts.resolve_text h]
    rfl
  · rw [resolve, Text.Parts.resolve_text_of_missing h]
    rfl
  · have hlast : Text.resolve ctx.valueOf? (Text.Parts.text ⟨[], t.text, h⟩) =
        .ok (Text.Parts.fill id ⟨[], t.text, h⟩) :=
      Text.Parts.resolve_text fun n hn => absurd hn List.not_mem_nil
    change Text.resolve ctx.valueOf? t.text = .ok t.text at hlast
    rw [resolve, hlast]
    rfl

theorem Text.not_hasPlaceholder_of_not_mem {cs : List Char} (h : '\x7d' ∉ cs) :
    ¬HasPlaceholder cs := by
  rintro ⟨before, after, rfl, hmem⟩
  exact h (List.mem_append_right _ hmem)

/-- A dollar sign in front of a placeholder, a name with an opening in it, and an opening that
stays open. -/
def Text.Parts.looseOpenings : Text.Parts where
  segments := [⟨"a$", "tenant", by decide, by decide⟩, ⟨"-", "n$\x7bm", by decide, by decide⟩]
  last := "$\x7bopen"
  last_plain := not_hasPlaceholder_of_not_mem (by decide)

/-- A context with the given variables. -/
def Context.withBindings (vars : Variables) : Context :=
  .new { mapping := .uniform { name := "account", nature := .main } [] "account", bindings := vars }

theorem Context.resolve_leftToRight_looseOpenings :
    Text.Parts.looseOpenings.text = "a$$\x7btenant\x7d-$\x7bn$\x7bm\x7d$\x7bopen" ∧
      (withBindings [("tenant", "$\x7bm\x7d"), ("n$\x7bm", "7")]).resolve
        Text.Parts.looseOpenings.text = .ok "a$$\x7bm\x7d-7$\x7bopen" ∧
      (withBindings [("m", "7"), ("tenant", "acme")]).resolve Text.Parts.looseOpenings.text =
        .error (.unresolvedVariable "n$\x7bm") ∧
      (withBindings []).resolve "$\x7bopen" = .ok "$\x7bopen" := by
  refine ⟨by decide, ?_, ?_, ?_⟩
  · obtain ⟨t, -, hunique, hvalues, -⟩ := resolve_leftToRight
      (withBindings [("tenant", "$\x7bm\x7d"), ("n$\x7bm", "7")]) Text.Parts.looseOpenings.text
    obtain rfl := hunique .looseOpenings rfl
    exact hvalues (fun n => if n = "tenant" then "$\x7bm\x7d" else "7") (by decide)
  · obtain ⟨t, -, hunique, -, hmissing, -⟩ := resolve_leftToRight
      (withBindings [("m", "7"), ("tenant", "acme")]) Text.Parts.looseOpenings.text
    obtain rfl := hunique .looseOpenings rfl
    exact hmissing _ (by decide)
  · obtain ⟨t, -, -, -, -, hplain⟩ := resolve_leftToRight (withBindings []) "$\x7bopen"
    exact hplain (Text.not_hasPlaceholder_of_not_mem (by decide))

end AudienceFilter
