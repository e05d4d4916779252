import AudienceFilter.Proofs.FragmentSafety

/-!
# Values in query texts

A value stands escaped behind the name of its field. The text of a filter query is trimmed after
that, and white space at the end of a value loses its place behind the escaping backslash. So a
text stands for its value exactly if the value does not end in white space:

* `Text.Carries`: whether a text stands for a value;
* `Text.trim_value`: what trimming leaves of a value behind a field;
* `value_carried_iff`: fragments of single values, and document filters.
-/

namespace AudienceFilter

/-! ## Escaped texts -/

namespace Text

/-- Whether each character that takes a backslash has one, and each backslash escapes a
character. -/
def isEscapedChars : List Char → Bool
  | [] => true
  | [c] => !needsEscape c
  | a :: b :: rest =>
    if a = '\\' then isEscapedChars rest else !needsEscape a && isEscapedChars (b :: rest)

/-- Whether a text stands for a value: it is escaped, and the value is what it escapes. -/
def Carries (text value : String) : Prop :=
  isEscapedChars text.toList = true ∧ unescape text = value

instance (text value : String) : Decidable (Carries text value) :=
  inferInstanceAs (Decidable (_ ∧ _))

/-- Whether the last character of a text is white space. -/
def endsBlank (s : String) : Bool := s.toList.getLast?.any isBlank

theorem ne_backslash {c : Char} (h : needsEscape c = false) : c ≠ '\\' := by
  rintro rfl
  exact absurd h (by decide)

theorem isEscapedChars_cons {c : Char} {cs : List Char} (h : needsEscape c = false) :
    isEscapedChars (c :: cs) = isEscapedChars cs := by
  cases cs with
  | nil => simp [isEscapedChars, h]
  | cons b rest => simp [isEscapedChars, h, ne_backslash h]

theorem unescapeChars_cons {c : Char} {cs : List Char} (h : needsEscape c = false) :
    unescapeChars (c :: cs) = c :: unescapeChars cs := by
  cases cs with
  | nil => rfl
  | cons b rest => simp [unescapeChars, ne_backslash h]

theorem escapeChars_cons (c : Char) (cs : List Char) :
    escapeChars (c :: cs) = escapeChar c ++ escapeChars cs := List.flatMap_cons

theorem escapeChars_append (cs ds : List Char) :
    escapeChars (cs ++ ds) = escapeChars cs ++ escapeChars ds := List.flatMap_append

/-- Behind an escaped list only the rest decides. -/
theorem isEscapedChars_escapeChars (cs rest : List Char) :
    isEscapedChars (escapeChars cs ++ rest) = isEscapedChars rest := by
  induction cs with
  | nil => rfl
  | cons c cs ih =>
    rw [escapeChars_cons, escapeChar]
    split
    · simpa [isEscapedChars] using ih
    · next h =>
      rw [List.append_assoc, List.singleton_append, isEscapedChars_cons (by simpa using h), ih]

theorem unescapeChars_escapeChars (cs rest : List Char) :
    unescapeChars (escapeChars cs ++ rest) = cs ++ unescapeChars rest := by
  induction cs with
  | nil => rfl
  | cons c cs ih =>
    rw [escapeChars_cons, escapeChar]
    split
    · simpa [unescapeChars] using ih
    · next h =>
      rw [List.append_assoc, List.singleton_append, unescapeChars_cons (by simpa using h), ih,
        List.cons_append]

/-- The escaped form of a value stands for it. -/
theorem carries_escape (v : String) : Carries (escape v) v := by
  have hescaped := isEscapedChars_escapeChars v.toList []
  have hvalue := unescapeChars_escapeChars v.toList []
  rw [List.append_nil] at hescaped hvalue
  refine ⟨?_, ?_⟩
  · rw [escape, String.toList_ofList, hescaped]
    rfl
  · rw [unescape, escape, String.toList_ofList, hvalue, unescapeChars, List.append_nil,
      String.ofList_toList]

/-- A backslash that escapes nothing leaves no value. -/
theorem not_carries_backslash {text v : String} (cs : List Char)
    (h : text.toList = escapeChars cs ++ ['\\']) : ¬ Carries text v := by
  rintro ⟨hescaped, -⟩
  rw [h, isEscapedChars_escapeChars] at hescaped
  exact absurd hescaped (by decide)

/-! ## Trimming -/

theorem trimChars_between {c d : Char} {cs blanks : List Char} (hc : isBlank c = false)
    (hd : isBlank d = false) (hb : ∀ b ∈ blanks, isBlank b = true) :
    trimChars (c :: cs ++ d :: blanks) = c :: cs ++ [d] := by
  have hend : trimStart (blanks.reverse ++ d :: (c :: cs).reverse) = d :: (c :: cs).reverse := by
    rw [trimStart, List.dropWhile_append_of_pos fun b hm => hb b (List.mem_reverse.1 hm)]
    exact trimStart_of_not_isBlank hd
  have hrev : (c :: (cs ++ d :: blanks)).reverse = blanks.reverse ++ d :: (c :: cs).reverse := by
    simp
  rw [trimChars, List.cons_append, trimStart_of_not_isBlank hc, hrev, hend, List.reverse_cons,
    List.reverse_reverse, List.cons_append]

theorem isBlank_of_isAlpha {c : Char} (h : c.isAlpha = true) : isBlank c = false := by
  have hrange : 65 ≤ c.toNat ∧ c.toNat ≤ 122 := by
    have halpha : (decide (65 ≤ c.val ∧ c.val ≤ 90) ||
        decide (97 ≤ c.val) && decide (c.val ≤ 122)) = true := h
    simp only [Bool.or_eq_true, Bool.and_eq_true, decide_eq_true_eq,
      UInt32.le_iff_toNat_le] at halpha
    show 65 ≤ c.val.toNat ∧ c.val.toNat ≤ 122
    grind
  grind [isBlank, blankRanges, inRanges]

theorem exists_of_isName {name : String} (h : isName name = true) :
    ∃ c rest, name.toList = c :: rest ∧ isBlank c = false := by
  rw [isName] at h
  cases hcs : name.toList with
  | nil =>
    rw [hcs] at h
    cases h
  | cons c rest =>
    rw [hcs, isNameChars, Bool.and_eq_true, Bool.and_eq_true] at h
    exact ⟨c, rest, rfl, isBlank_of_isAlpha h.1.1⟩

/-- Trimming a text behind a name drops the white space at its end. -/
theorem trim_behind {name text : String} {kept blanks : List Char} {d : Char}
    (hn : isName name = true) (ht : text.toList = kept ++ d :: blanks) (hd : isBlank d = false)
    (hb : ∀ b ∈ blanks, isBlank b = true) :
    trim (name ++ text) = name ++ String.ofList (kept ++ [d]) := by
  obtain ⟨c, rest, hname, hc⟩ := exists_of_isName hn
  have hsplit : (name ++ text).toList = c :: (rest ++ kept) ++ d :: blanks := by
    simp [hname, ht]
  apply String.toList_inj.1
  rw [trim, String.toList_ofList, hsplit, trimChars_between hc hd hb]
  simp [hname]

theorem toList_colon_escape (v : String) :
    (":" ++ escape v).toList = ':' :: escapeChars v.toList := by
  simp [escape]

/-- A value that does not end in white space is left as it is. -/
theorem trim_value_of_endsBlank_eq_false {name v : String} (hn : isName name = true)
    (hv : endsBlank v = false) : trim (name ++ ":" ++ escape v) = name ++ ":" ++ escape v := by
  obtain ⟨kept, d, hd, hlast⟩ : ∃ kept d, isBlank d = false ∧
      ':' :: escapeChars v.toList = kept ++ [d] := by
    rcases List.eq_nil_or_concat v.toList with hnil | ⟨w, b, hb⟩
    · exact ⟨[], ':', by decide, by rw [hnil]; rfl⟩
    · have hblank : isBlank b = false := by simpa [endsBlank, hb] using hv
      obtain ⟨lead, hlead⟩ : ∃ lead, escapeChar b = lead ++ [b] := by
        rw [escapeChar]
        split
        · exact ⟨['\\'], rfl⟩
        · exact ⟨[], rfl⟩
      refine ⟨':' :: escapeChars w ++ lead, b, hblank, ?_⟩
      simp [hb, escapeChars, hlead]
  rw [String.append_assoc, trim_behind hn ((toList_colon_escape v).trans hlast) hd nofun, ← hlast,
    ← toList_colon_escape, String.ofList_toList]

/-- A value that ends in white space loses it, and its backslash is left over. -/
theorem trim_value_of_blank {name v : String} {w : List Char} {b : Char} (hn : isName name = true)
    (hv : v.toList = w ++ [b]) (hb : isBlank b = true) :
    trim (name ++ ":" ++ escape v) = name ++ ":" ++ String.ofList (escapeChars w ++ ['\\']) := by
  have hescaped : (":" ++ escape v).toList = (':' :: escapeChars w) ++ '\\' :: [b] := by
    rw [toList_colon_escape, hv, escapeChars_append]
    simp [escapeChars, escapeChar, needsEscape, hb]
  rw [String.append_assoc, trim_behind hn hescaped (by decide) (by simpa using hb)]
  apply String.toList_inj.1
  simp

/-- What trimming leaves of a value behind a field stands for the value exactly if the value does
not end in white space. -/
theorem trim_value {name : String} (hn : isName name = true) (v : String) :
    ∃ text, trim (name ++ ":" ++ escape v) = name ++ ":" ++ text ∧
      (Carries text v ↔ endsBlank v = false) ∧ (text = "" ↔ v = "") := by
  cases hv : endsBlank v with
  | false =>
    refine ⟨escape v, trim_value_of_endsBlank_eq_false hn hv, iff_of_true (carries_escape v) rfl, ?_⟩
    constructor
    · intro hempty
      have hcarries := (carries_escape v).2
      rw [hempty] at hcarries
      exact hcarries.symm
    · rintro rfl
      rfl
  | true =>
    obtain ⟨w, b, hw, hb⟩ : ∃ w b, v.toList = w ++ [b] ∧ isBlank b = true := by
      rw [endsBlank, Option.any_eq_true] at hv
      obtain ⟨b, hlast, hb⟩ := hv
      obtain ⟨w, hw⟩ := List.getLast?_eq_some_iff.1 hlast
      exact ⟨w, b, hw, hb⟩
    refine ⟨_, trim_value_of_blank hn hw hb, ?_, ?_⟩
    · exact iff_of_false (not_carries_backslash w String.toList_ofList) nofun
    · refine iff_of_false (by simp) ?_
      rintro rfl
      simp at hw

end Text

/-! ## Queries -/

namespace FilterQuery

theorem make_value (field : QueryField) (kind : ConditionKind) (v : String)
    (hn : Text.isName field.name = true) :
    ∃ q text, make (field.name ++ ":" ++ Text.escape v) [field] [kind] = .ok q ∧
      q.text = field.name ++ ":" ++ text ∧ (Text.Carries text v ↔ Text.endsBlank v = false) ∧
      (text = "" ↔ v = "") := by
  obtain ⟨text, htrim, htext⟩ := Text.trim_value hn v
  have hmake := make_of_text (Text.isBlankText_colon field.name (Text.escape v))
    (List.cons_ne_nil field []) (List.cons_ne_nil kind [])
  exact ⟨_, text, hmake, htrim, htext⟩

end FilterQuery

theorem QueryField.make_of_isName {nodeType name : String} (ht : Text.isName nodeType = true)
    (hn : Text.isName name = true) : make nodeType name = .ok ⟨nodeType, name⟩ := by
  simp [make, ht, hn]

namespace Context

variable {ctx : Context}

/-- The fragment of a single condition with a value. -/
theorem fragment_single {s : Single} (hop : s.condition.op ≠ .isUnknown)
    (hr : s.condition.isReference = false) :
    ctx.fragment (.leaf (.single s)) = (do
      let a ← liftError (ctx.assignment s.condition.arg)
      let condition ← ctx.valueCondition a s.condition
      fieldFragment a (a.field.name ++ ":" ++ condition.1) condition.2) := by
  rw [fragment, leafFragment, singleFragment]
  dsimp only
  rw [if_neg hop, hr, if_neg Bool.false_ne_true]

/-- The text of a single value that is compared for equality. -/
theorem fragment_value {s : Single} {a : Assignment} {v : String} (hctx : ctx.Checked)
    (hs : s.condition = .withOperator s.condition.arg .equals v)
    (ha : ctx.assignment s.condition.arg = .ok a) (ht : a.argType = .string)
    (hf : a.field.type.formatter = none) (hv : Text.isBlankText v = false) :
    ∃ q text, ctx.fragment (.leaf (.single s)) = .ok q ∧ q.text = a.field.name ++ ":" ++ text ∧
      (Text.Carries text v ↔ Text.endsBlank v = false) := by
  have hformat : formatValue a v .equals = .ok (Text.escape v) := by
    simp only [formatValue, FieldType.format, hf, ht, FieldKind.format, FieldKind.native, hv]
    rfl
  have halign : ctx.alignsDays a = false := by
    simp [alignsDays, ht]
  have hcondition : ctx.valueCondition a s.condition = .ok (Text.escape v, .value) := by
    rw [hs, valueCondition]
    refine bind_eq_ok.2 ⟨Text.escape v, liftError_eq_ok.2 hformat, ?_⟩
    rw [halign]
    rfl
  have hfield := QueryField.make_of_isName (hctx.assignment ha) (hctx.field ha)
  obtain ⟨q, text, hq, htext, hcarries, -⟩ :=
    FilterQuery.make_value ⟨a.field.nodeType, a.field.name⟩ .value v (hctx.field ha)
  refine ⟨q, text, ?_, htext, hcarries⟩
  have hop : s.condition.op ≠ .isUnknown := by
    rw [hs]
    nofun
  have hreference : s.condition.isReference = false := by
    rw [hs]
    rfl
  rw [fragment_single hop hreference]
  refine bind_eq_ok.2 ⟨a, liftError_eq_ok.2 ha, bind_eq_ok.2 ⟨_, hcondition, ?_⟩⟩
  exact bind_eq_ok.2 ⟨_, liftName_eq_ok.2 hfield, liftFault_eq_ok.2 hq⟩

/-- The text of a document filter. -/
theorem documentFilter_value {f : DocumentFilter} {value : String}
    (ht : Text.isName f.nodeType = true) (hf : Text.isName f.field = true)
    (hr : ctx.resolve f.template = .ok value) :
    ∃ q, ctx.documentFilter f = .ok q ∧ ∃ text, q.text = f.field ++ ":" ++ text ∧
      (text ≠ "" ∧ Text.Carries text value ↔ value ≠ "" ∧ Text.endsBlank value = false) := by
  obtain ⟨q, text, hq, htext, hcarries, hempty⟩ :=
    FilterQuery.make_value ⟨f.nodeType, f.field⟩ .filterDocument value hf
  refine ⟨q, ?_, text, htext, and_congr (not_congr hempty) hcarries⟩
  refine bind_eq_ok.2 ⟨value, liftError_eq_ok.2 hr, ?_⟩
  exact bind_eq_ok.2 ⟨_, liftName_eq_ok.2 (QueryField.make_of_isName ht hf), liftFault_eq_ok.2 hq⟩

end Context

/-- With a mapping that was built, a single text value stands in its fragment behind the field
exactly if it does not end in white space, and so does the value of a document filter exactly if it
is not empty either. -/
theorem value_carried_iff {d : Draft} {cat : Catalog} {ctx : Context} (hb : d.build = .ok cat)
    (hm : ctx.mapping = cat.toMapping) :
    (∀ (s : Single) (a : Assignment) (v : String),
      s.condition = .withOperator s.condition.arg .equals v →
      ctx.assignment s.condition.arg = .ok a → a.argType = .string →
      a.field.type.formatter = none → Text.isBlankText v = false →
      ∃ q text, ctx.fragment (.leaf (.single s)) = .ok q ∧ q.text = a.field.name ++ ":" ++ text ∧
        (Text.Carries text v ↔ Text.endsBlank v = false)) ∧
    ∀ (nodeType : String) (info : NodeType) (value : DocumentFilter → String),
      ctx.mapping.nodeType nodeType = .ok info →
      (∀ f ∈ info.filters, ctx.resolve f.template = .ok (value f)) →
      ∃ qs, ctx.documentFilters nodeType = .ok qs ∧ qs.length = info.filters.length ∧
        ∀ p ∈ info.filters.zip qs, ∃ text, p.2.text = p.1.field ++ ":" ++ text ∧
          (text ≠ "" ∧ Text.Carries text (value p.1) ↔
            value p.1 ≠ "" ∧ Text.endsBlank (value p.1) = false) := by
  have hctx := Draft.checked hb hm
  constructor
  · intro s a v hs ha ht hf hv
    exact Context.fragment_value hctx hs ha ht hf hv
  · intro nodeType info value hinfo hvalue
    have hfilters : ∀ f ∈ info.filters, ∃ q, ctx.documentFilter f = .ok q ∧
        ∃ text, q.text = f.field ++ ":" ++ text ∧
          (text ≠ "" ∧ Text.Carries text (value f) ↔
            value f ≠ "" ∧ Text.endsBlank (value f) = false) := by
      intro f hf
      refine Context.documentFilter_value ?_ (hctx.filterField hinfo f hf) (hvalue f hf)
      rw [hctx.filters hinfo f hf]
      exact hctx.nodeType hinfo
    obtain ⟨qs, hqs, hlen, hall⟩ := exists_mapM_eq_ok hfilters
    exact ⟨qs, bind_eq_ok.2 ⟨info, liftError_eq_ok.2 hinfo, hqs⟩, hlen, hall⟩

/-! ## Accounts and their tenants -/

/-- Accounts with a name, of which only those of a tenant are seen. -/
def Draft.accounts : Draft where
  main :=
    { name := "account", nature := .main, filters := [⟨"account", "tenant", "$\x7btenant\x7d"⟩] }
  assignments := [
    { arg := "name", argType := .string,
      field := { nodeType := "account", name := "name", type := { kind := .string } } }]

/-- The catalog of the draft. -/
def Catalog.accounts : Catalog where
  main := Draft.accounts.main
  others := []
  assignments := Draft.accounts.assignments
  policies := []
  nodeTypeField := "node_type"
  uniqueKeyField := "id"
  dependentKeyField := "main_id"

/-- The context of conversions for a tenant. -/
def Context.accounts (tenant : String) : Context :=
  .new { mapping := Catalog.accounts.toMapping, bindings := [("tenant", tenant)] }

/-- Accounts of a name. -/
def Single.named (name : String) : Single :=
  ⟨"account", .withOperator "name" .equals name, .positive, true⟩

theorem value_carried_accounts :
    Draft.accounts.build = .ok Catalog.accounts ∧
      (∃ q text, (Context.accounts "a:b c").fragment (.leaf (.single (.named " (Ada)\\"))) = .ok q ∧
        q.text = "name" ++ ":" ++ text ∧ Text.Carries text " (Ada)\\") ∧
      ∃ qs, (Context.accounts "a:b c").documentFilters "account" = .ok qs ∧ qs.length = 1 ∧
        ∀ p ∈ Catalog.accounts.main.filters.zip qs, ∃ text, p.2.text = p.1.field ++ ":" ++ text ∧
          text ≠ "" ∧ Text.Carries text "a:b c" := by
  have hmapping : (Context.accounts "a:b c").mapping = Catalog.accounts.toMapping := rfl
  have hresolve : ∀ f ∈ Catalog.accounts.main.filters,
      (Context.accounts "a:b c").resolve f.template = .ok "a:b c" := by
    intro f hf
    rw [List.mem_singleton.1 hf]
    exact eq_ok_of_toOption (by decide +kernel)
  obtain ⟨hleaf, hfilters⟩ := value_carried_iff (d := .accounts) rfl hmapping
  obtain ⟨q, text, hq, htext, hcarries⟩ := hleaf (.named " (Ada)\\") _ _ rfl rfl rfl rfl (by decide)
  obtain ⟨qs, hqs, hlen, hall⟩ :=
    hfilters "account" Catalog.accounts.main (fun _ => "a:b c") rfl hresolve
  refine ⟨rfl, ⟨q, text, hq, htext, hcarries.2 (by decide)⟩, qs, hqs, hlen, fun p hp => ?_⟩
  obtain ⟨text, htext, hcarries⟩ := hall p hp
  exact ⟨text, htext, hcarries.2 (by decide)⟩

/-- White space at the end of a name or of a tenant leaves a backslash that escapes nothing, and an
empty tenant leaves no text. -/
theorem value_not_carried_trailingBlank :
    Draft.accounts.build = .ok Catalog.accounts ∧
      ((Context.accounts "acme ").fragment (.leaf (.single (.named "Ada ")))).toOption.map
        FilterQuery.text = some "name:Ada\\" ∧ ¬ Text.Carries "Ada\\" "Ada " ∧
      ((Context.accounts "acme ").documentFilters "account").toOption.map (List.map FilterQuery.text) =
        some ["tenant:acme\\"] ∧ ¬ Text.Carries "acme\\" "acme " ∧
      ((Context.accounts "").documentFilters "account").toOption.map (List.map FilterQuery.text) =
        some ["tenant:"] := by
  refine ⟨rfl, ?_, ?_, ?_, ?_, ?_⟩
  all_goals decide +kernel

end AudienceFilter
