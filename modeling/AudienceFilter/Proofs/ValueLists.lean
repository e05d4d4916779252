import AudienceFilter.Proofs.CanonicalOrder
import AudienceFilter.Proofs.EscapedValues

/-!
# Lists of values

An argument that equals one of several values is written with all of them behind its field, in
parentheses and with `OR` between them. White space in a value is escaped, so a reader that cuts
the text at white space gets the values apart again, in their canonical order. The escaped form of
a value is an operator word exactly if the value is: nothing marks the value `AND` as a value.

* `Text.tokens`: the parts of a text between white space that is not escaped;
* `Text.Lists`: texts that are read as a list of values;
* `Text.lists_alternatives`: values that are joined by `OR`;
* `Context.fragment_values`: the text of a leaf of several values lists them;
* `valueList_tokens`: the same for mappings that were built.
-/

namespace AudienceFilter

/-! ## Tokens -/

namespace Text

/-- Cuts at each white space that is not escaped. What was read since the last cut is `token`. -/
def cutTokens (token : List Char) : List Char → List (List Char)
  | [] => [token]
  | [c] => if isBlank c then [token, []] else [token ++ [c]]
  | a :: b :: rest =>
    if a = '\\' then cutTokens (token ++ [a, b]) rest
    else if isBlank a then token :: cutTokens [] (b :: rest)
    else cutTokens (token ++ [a]) (b :: rest)

/-- The parts of a text between white space that is not escaped. -/
def tokens (s : String) : List String := (cutTokens [] s.toList).map String.ofList

/-- The words that join or negate the parts of a query. -/
def operatorWords : List String := ["AND", "OR", "NOT"]

/-- Whether a text is read as a list of values: it has an escaped token for each of them, in their
order and with `OR` between them. A token is an operator word exactly if its value is. -/
def Lists (values : List String) (body : String) : Prop :=
  ∃ parts : List String, tokens body = parts.intersperse "OR" ∧
    (∀ t ∈ parts, isEscapedChars t.toList = true) ∧ parts.map unescape = values ∧
    ((∀ t ∈ parts, t ∉ operatorWords) ↔ ∀ v ∈ values, v ∉ operatorWords)

theorem cutTokens_blank {c : Char} (token cs : List Char) (hc : c ≠ '\\')
    (hb : isBlank c = true) : cutTokens token (c :: cs) = token :: cutTokens [] cs := by
  cases cs with
  | nil => simp [cutTokens, hb]
  | cons d ds => simp [cutTokens, hc, hb]

theorem cutTokens_plain {c : Char} (token cs : List Char) (hc : needsEscape c = false) :
    cutTokens token (c :: cs) = cutTokens (token ++ [c]) cs := by
  have hb : isBlank c = false := (Bool.or_eq_false_iff.1 hc).2
  cases cs with
  | nil => simp [cutTokens, hb]
  | cons d ds => simp [cutTokens, ne_backslash hc, hb]

/-- The escaped form of a value is not cut. -/
theorem cutTokens_escapeChars (token cs rest : List Char) :
    cutTokens token (escapeChars cs ++ rest) = cutTokens (token ++ escapeChars cs) rest := by
  induction cs generalizing token with
  | nil => rw [escapeChars, List.flatMap_nil, List.nil_append, List.append_nil]
  | cons c cs ih =>
    rw [escapeChars_cons, escapeChar]
    split
    · simp [cutTokens, ih]
    · next h =>
      rw [List.append_assoc, List.singleton_append, cutTokens_plain token _ (by simpa using h), ih,
        List.append_assoc]

/-- A value ends where ` OR ` follows. -/
theorem cutTokens_or (cs rest : List Char) :
    cutTokens [] (escapeChars cs ++ (" OR ".toList ++ rest)) =
      escapeChars cs :: "OR".toList :: cutTokens [] rest := by
  calc cutTokens [] (escapeChars cs ++ (" OR ".toList ++ rest))
      = cutTokens (escapeChars cs) (' ' :: 'O' :: 'R' :: ' ' :: rest) := cutTokens_escapeChars _ _ _
    _ = escapeChars cs :: cutTokens [] ('O' :: 'R' :: ' ' :: rest) :=
        cutTokens_blank _ _ (by decide) (by decide)
    _ = escapeChars cs :: cutTokens ['O', 'R'] (' ' :: rest) := by
        rw [cutTokens_plain _ _ (by decide), cutTokens_plain _ _ (by decide)]
        rfl
    _ = escapeChars cs :: ['O', 'R'] :: cutTokens [] rest := by
        rw [cutTokens_blank _ _ (by decide) (by decide)]

/-- Values that are joined by `OR` are read one by one. -/
theorem tokens_alternatives {values : List String} (h : values ≠ []) :
    tokens (String.intercalate " OR " (values.map escape)) =
      (values.map escape).intersperse "OR" := by
  have hescape : ∀ v : String, (escape v).toList = escapeChars v.toList := fun v =>
    String.toList_ofList
  induction values with
  | nil => exact absurd rfl h
  | cons v vs ih =>
    cases vs with
    | nil =>
      have hcut := cutTokens_escapeChars [] v.toList []
      rw [List.append_nil, List.nil_append] at hcut
      rw [List.map_singleton, String.intercalate_singleton, tokens, hescape, hcut]
      rfl
    | cons w ws =>
      have ih := ih (List.cons_ne_nil w ws)
      rw [List.map_cons, String.intercalate_cons_of_ne_nil (by simp), tokens,
        String.toList_append, String.toList_append, hescape, List.append_assoc, cutTokens_or,
        List.map_cons, List.map_cons, ← tokens, ih]
      rfl

/-- Escaping does not change whether a value is an operator word. -/
theorem escape_mem_operatorWords {v : String} :
    escape v ∈ operatorWords ↔ v ∈ operatorWords := by
  have hplain : operatorWords.all (fun w => escape w == w && unescape w == w) = true := by decide
  have hplain := List.all_eq_true.1 hplain
  simp only [Bool.and_eq_true, beq_iff_eq] at hplain
  constructor
  · intro h
    have hv := (carries_escape v).2
    rw [(hplain _ h).2] at hv
    exact hv ▸ h
  · intro h
    rw [(hplain v h).1]
    exact h

theorem lists_alternatives {values : List String} (h : values ≠ []) :
    Lists values (String.intercalate " OR " (values.map escape)) := by
  refine ⟨values.map escape, tokens_alternatives h, ?_, ?_, ?_⟩
  · rw [List.forall_mem_map]
    exact fun v _ => (carries_escape v).1
  · rw [List.map_map]
    exact (List.map_congr_left fun v _ => (carries_escape v).2).trans (List.map_id _)
  · rw [List.forall_mem_map]
    simp only [escape_mem_operatorWords]

end Text

/-! ## Leaves of several values -/

/-- A text in parentheses behind a name is left as it is. -/
theorem Text.trim_parenthesized {name body : String} (hn : isName name = true) :
    trim (name ++ ":(" ++ body ++ ")") = name ++ ":(" ++ body ++ ")" := by
  have hlast : (":(" ++ body ++ ")").toList = (":(" ++ body).toList ++ [')'] := by simp
  have htrim := trim_behind hn hlast (by decide) fun b hb => absurd hb List.not_mem_nil
  rw [← hlast, String.ofList_toList] at htrim
  simpa only [String.append_assoc] using htrim

theorem FilterQuery.make_parenthesized (field : QueryField) (kind : ConditionKind) (body : String)
    (hn : Text.isName field.name = true) :
    ∃ q, make (field.name ++ ":(" ++ body ++ ")") [field] [kind] = .ok q ∧
      q.text = field.name ++ ":(" ++ body ++ ")" := by
  have hblank : Text.isBlankText (field.name ++ ":(" ++ body ++ ")") = false :=
    Text.isBlankText_append_right (by decide)
  have hmake := make_of_text hblank (List.cons_ne_nil field []) (List.cons_ne_nil kind [])
  exact ⟨_, hmake, Text.trim_parenthesized hn⟩

namespace Multi

/-- The values that the conditions of a leaf compare with. -/
def values (m : Multi) : List String := m.members.map fun c => c.value?.getD ""

theorem Together.others_ne_nil {lead : Condition} {others : List Condition} {s : Shape}
    (h : Together lead others s) (hs : s = .values) : others ≠ [] := by
  cases h with
  | alone => split at hs <;> cases hs
  | inclusive hb he ho => split at hs <;> cases hs
  | values hne hop hall => exact hne

section Made

variable {nodeType : String} {members : List Condition} {p : Polarity} {joinable : Bool}
  {m : Multi} (h : make nodeType members p joinable = .ok m) (hs : m.shape = .values)

include h hs

theorem two_le_length_values : 2 ≤ m.values.length := by
  obtain ⟨-, -, -, hclass, -⟩ := make_eq_ok h
  have hne := (classify_cases hclass).2.others_ne_nil hs
  rw [values, List.length_map, Multi.members, List.length_cons]
  exact Nat.succ_le_succ (List.length_pos_iff.2 hne)

variable (ho : m.leadOp = .equals)

include ho

/-- Several values are equalities of one argument. -/
theorem members_eq_map_values : m.members = m.values.map (.withOperator m.arg .equals) := by
  obtain ⟨-, -, harg, hclass, -⟩ := make_eq_ok h
  have hall := ((classify_cases hclass).2.values_of_shape hs).2
  rw [values, List.map_map]
  refine (List.map_id _).symm.trans (List.map_congr_left fun c hc => ?_)
  obtain ⟨hop, hvalue⟩ := hall c hc
  obtain ⟨v, hv⟩ := Option.isSome_iff_exists.1 hvalue
  rw [Function.comp_apply, hv, Option.getD_some, Condition.withOperator,
    ← Condition.value?_eq_some.1 hv, ← harg c hc, ← ho, leadOp, ← hop]
  rfl

/-- The values are in canonical order. -/
theorem increasing_values : Sorted.Increasing compare m.values := by
  obtain ⟨-, hmembers, harg, -⟩ := make_eq_ok h
  have hincreasing : Sorted.Increasing order m.members := by
    rw [hmembers]
    exact increasing_canonical fun c hc => harg c (hmembers ▸ mem_canonical.2 hc)
  rw [members_eq_map_values h hs ho, Sorted.Increasing, List.pairwise_map] at hincreasing
  refine hincreasing.imp fun {v w} hvw => ?_
  simpa [order, compareLex, compareOn, Condition.withOperator, Operand.place] using hvw

end Made

end Multi

namespace Context

variable {ctx : Context}

/-- The text of a leaf of several values that an argument may equal lists them in parentheses
behind its field. -/
theorem fragment_values {m : Multi} {a : Assignment} (hctx : ctx.Checked)
    (hs : m.shape = .values) (ho : m.leadOp = .equals) (ha : ctx.assignment m.arg = .ok a)
    (ht : a.argType = .string) (hf : a.field.type.formatter = none)
    (hv : ∀ v ∈ m.values, Text.isBlankText v = false) :
    ∃ q body, ctx.fragment (.leaf (.multi m)) = .ok q ∧
      q.text = a.field.name ++ ":(" ++ body ++ ")" ∧ Text.Lists m.values body := by
  have hformat : m.members.mapM (fun c =>
      liftError (formatValue a (c.value?.getD "") .equals)) =
        .ok (m.values.map Text.escape) := by
    rw [Multi.values, List.map_map]
    refine mapM_eq_ok_map fun c hc => liftError_eq_ok.2 ?_
    have hv := hv _ (List.mem_map_of_mem hc)
    simp only [formatValue, FieldType.format, hf, ht, FieldKind.format, FieldKind.native, hv]
    rfl
  have hfield := QueryField.make_of_isName (hctx.assignment ha) (hctx.field ha)
  have halign : ctx.alignsDays a = false := by
    simp [alignsDays, ht]
  obtain ⟨q, hq, htext⟩ := FilterQuery.make_parenthesized ⟨a.field.nodeType, a.field.name⟩ .value
    (String.intercalate " OR " (m.values.map Text.escape)) (hctx.field ha)
  have hne : m.values ≠ [] := List.cons_ne_nil _ _
  refine ⟨q, _, ?_, htext, Text.lists_alternatives hne⟩
  rw [fragment, leafFragment, multiFragment, hs, if_neg (by decide)]
  refine bind_eq_ok.2 ⟨a, liftError_eq_ok.2 ha, ?_⟩
  simp only [ho, halign, and_self, if_true]
  refine bind_eq_ok.2 ⟨_, hformat, ?_⟩
  exact bind_eq_ok.2 ⟨_, liftName_eq_ok.2 hfield, liftFault_eq_ok.2 hq⟩

end Context

/-- With a mapping that was built, the text of several nonblank values that an argument may equal
stands in parentheses behind its field. Cut at white space that is not escaped, it gives one token
for each value, in canonical order and with `OR` between them. A token is an operator word exactly
if its value is. -/
theorem valueList_tokens {d : Draft} {cat : Catalog} {ctx : Context} {nodeType : String}
    {members : List Condition} {p : Polarity} {joinable : Bool} {m : Multi} {a : Assignment}
    (hb : d.build = .ok cat) (hm : ctx.mapping = cat.toMapping)
    (hmake : Multi.make nodeType members p joinable = .ok m) (hs : m.shape = .values)
    (ho : m.leadOp = .equals) (ha : ctx.assignment m.arg = .ok a) (ht : a.argType = .string)
    (hf : a.field.type.formatter = none) (hv : ∀ v ∈ m.values, Text.isBlankText v = false) :
    m.members = m.values.map (.withOperator m.arg .equals) ∧ 2 ≤ m.values.length ∧
      Sorted.Increasing compare m.values ∧
      ∃ (q : FilterQuery) (body : String) (tokens : List String),
        ctx.fragment (.leaf (.multi m)) = .ok q ∧
        q.text = a.field.name ++ ":(" ++ body ++ ")" ∧
        Text.tokens body = tokens.intersperse "OR" ∧
        (∀ t ∈ tokens, Text.isEscapedChars t.toList = true) ∧
        tokens.map Text.unescape = m.values ∧
        ((∀ t ∈ tokens, t ∉ Text.operatorWords) ↔ ∀ v ∈ m.values, v ∉ Text.operatorWords) := by
  obtain ⟨q, body, hq, htext, tokens, htokens⟩ :=
    Context.fragment_values (Draft.checked hb hm) hs ho ha ht hf hv
  exact ⟨Multi.members_eq_map_values hmake hs ho, Multi.two_le_length_values hmake hs,
    Multi.increasing_values hmake hs ho, q, body, tokens, hq, htext, htokens⟩

/-- Accounts of one of several names. -/
def Multi.named (lead : String) (others : List String) : Multi where
  nodeType := "account"
  lead := .withOperator "name" .equals lead
  others := others.map (.withOperator "name" .equals)
  polarity := .positive
  joinable := true
  shape := .values

/-- Accounts of several names, given in any order and more than once. -/
theorem valueList_tokens_accounts :
    Draft.accounts.build = .ok Catalog.accounts ∧
      Multi.make "account" (["\\(b)", "OR", "Ada OR b", "\\(b)"].map (.withOperator "name" .equals))
        .positive true = .ok (.named "Ada OR b" ["OR", "\\(b)"]) ∧
      ∃ (q : FilterQuery) (body : String) (tokens : List String),
        (Context.accounts "t").fragment (.leaf (.multi (.named "Ada OR b" ["OR", "\\(b)"]))) =
          .ok q ∧
        q.text = "name" ++ ":(" ++ body ++ ")" ∧
        Text.tokens body = tokens.intersperse "OR" ∧
        tokens.map Text.unescape = ["Ada OR b", "OR", "\\(b)"] := by
  have hmake : Multi.make "account"
      (["\\(b)", "OR", "Ada OR b", "\\(b)"].map (.withOperator "name" .equals)) .positive true =
        .ok (.named "Ada OR b" ["OR", "\\(b)"]) :=
    eq_ok_of_toOption (by decide +kernel)
  have hmapping : (Context.accounts "t").mapping = Catalog.accounts.toMapping := rfl
  have hnonblank := List.all_eq_true.1
    (by decide : (Multi.named "Ada OR b" ["OR", "\\(b)"]).values.all
      (fun v => !Text.isBlankText v) = true)
  obtain ⟨-, -, -, q, body, tokens, hq, htext, htokens, -, hvalues, -⟩ :=
    valueList_tokens (d := .accounts) rfl hmapping hmake rfl rfl rfl rfl rfl
      fun v hv => by simpa using hnonblank v hv
  exact ⟨rfl, hmake, q, body, tokens, hq, htext, htokens, hvalues⟩

/-- The value `AND` is written as the operator. -/
theorem valueList_operatorWord :
    Draft.accounts.build = .ok Catalog.accounts ∧
      (Multi.make "account" (["AND", "b"].map (.withOperator "name" .equals)) .positive
        true).toOption = some (.named "AND" ["b"]) ∧
      ((Context.accounts "t").fragment (.leaf (.multi (.named "AND" ["b"])))).toOption.map
        FilterQuery.text = some "name:(AND OR b)" ∧
      Text.tokens "AND OR b" = ["AND", "b"].intersperse "OR" ∧ "AND" ∈ Text.operatorWords := by
  refine ⟨rfl, ?_, ?_, ?_, ?_⟩
  all_goals decide +kernel

end AudienceFilter
