import AudienceFilter.Proofs.CheckedMapping
import AudienceFilter.Proofs.Formula
import AudienceFilter.Proofs.Fragments

/-!
# The grammar of scripts

A script is put together from operands: a fragment, a brace around operands with one connective
between them, the complement of an operand, and a join around a conjunction of operands. The
reading of a script and the run of a builder both follow this grammar.

* `Operand`: the grammar, with the formula that an operand stands for;
* `reads_of_operand`, `read?_of_query`: a script that does not fail is read as its formula.
-/

namespace AudienceFilter

/-- Whether a command opens a join on a node type with document filters. -/
def Command.Opens (c : Command) (nodeType : String) (filters : List FilterQuery) : Prop :=
  c = .startNested nodeType filters ∨ c = .startDependent nodeType filters

/-- The condition on the node type that a join starts with. -/
def Labelled.nodeType (ctx : Context) (name : String) : Labelled ctx where
  atom := .nodeType name
  term := .nodeType name
  written := rfl

/-- The level with further members, the last of which was just read. -/
def Frame.taken (fr : Frame) (fs : List (Formula Term)) : Frame :=
  { fr with members := fr.members ++ fs, expects := false }

namespace Script

/-- Whether steps make up one operand on a node type, and the formula that it stands for. Where
a step fails, it does not matter what would have followed. -/
inductive Operand (ctx : Context) : String → List Step → Formula (Labelled ctx) → Prop
  | failed {here : String} (f : Failure) (rest : List Step) (φ : Formula (Labelled ctx)) :
      Operand ctx here (.fail f :: rest) φ
  | fragment {here : String} {a : Labelled ctx} {q : FilterQuery} (ha : a.term = .fragment q)
      (hq : q.On here) : Operand ctx here [.call (.append q)] (.atom a)
  | brace {here : String} {j : Connective} {members : List (List Step × Formula (Labelled ctx))}
      (hlen : 2 ≤ members.length) (h : ∀ m ∈ members, Operand ctx here m.1 m.2) :
      Operand ctx here (braced (separated j (members.map Prod.fst)))
        (.combined j (members.map Prod.snd))
  | complement {here : String} {steps : List Step} {φ : Formula (Labelled ctx)}
      (h : Operand ctx here steps φ) :
      Operand ctx here (.call .openComplement :: (steps ++ [.call .closeBrace])) (.complement φ)
  | join {nodeType : String} {c : Command} {qs : List FilterQuery} {filters : List (Labelled ctx)}
      {members : List (List Step × Formula (Labelled ctx))} (hc : c.Opens nodeType qs)
      (hn : ctx.mainType ≠ nodeType) (hf : filters.map Labelled.term = qs.map .fragment)
      (hq : ∀ q ∈ qs, q.On nodeType) (hne : members ≠ [])
      (h : ∀ m ∈ members, Operand ctx nodeType m.1 m.2) :
      Operand ctx ctx.mainType
        (.call c :: (separated .and (members.map Prod.fst) ++ [.call .endJoin]))
        (.join nodeType (.combined .and
          (.atom (.nodeType ctx nodeType) :: (filters.map .atom ++ members.map Prod.snd))))

/-- Whether steps make up a whole filter query: an operand on the main documents, or several with
one connective between them. -/
inductive Query (ctx : Context) : List Step → Formula (Labelled ctx) → Prop
  | operand {steps : List Step} {φ : Formula (Labelled ctx)}
      (h : Operand ctx ctx.mainType steps φ) : Query ctx steps φ
  | combined {j : Connective} {members : List (List Step × Formula (Labelled ctx))}
      (hlen : 2 ≤ members.length) (h : ∀ m ∈ members, Operand ctx ctx.mainType m.1 m.2) :
      Query ctx (separated j (members.map Prod.fst)) (.combined j (members.map Prod.snd))

/-- Whether no step fails. -/
def Succeeds (steps : List Step) : Prop := ∀ f, .fail f ∉ steps

theorem succeeds_append {xs ys : List Step} :
    Succeeds (xs ++ ys) ↔ Succeeds xs ∧ Succeeds ys := by
  simp [Succeeds, not_or, forall_and]

theorem succeeds_cons_call {c : Command} {steps : List Step} :
    Succeeds (.call c :: steps) ↔ Succeeds steps := by
  simp [Succeeds]

theorem separated_singleton (j : Connective) (x : List Step) : separated j [x] = x :=
  List.intercalate_singleton

theorem separated_cons_cons (j : Connective) (x y : List Step) (xs : List (List Step)) :
    separated j (x :: y :: xs) = x ++ .call (.separator j) :: separated j (y :: xs) := by
  rw [separated, List.intercalate_cons_cons, List.append_assoc]
  rfl

theorem succeeds_separated {j : Connective} {xs : List (List Step)}
    (h : Succeeds (separated j xs)) : ∀ x ∈ xs, Succeeds x := by
  induction xs with
  | nil => exact fun _ hx => absurd hx List.not_mem_nil
  | cons x xs ih =>
    cases xs with
    | nil =>
      rw [separated_singleton] at h
      simpa using h
    | cons y ys =>
      rw [separated_cons_cons, succeeds_append, succeeds_cons_call] at h
      exact List.forall_mem_cons.2 ⟨h.1, ih h.2⟩

/-! ## Reading -/

theorem readSteps?_append (frs : List Frame) (xs ys : List Step) :
    readSteps? frs (xs ++ ys) = (readSteps? frs xs).bind fun frs => readSteps? frs ys := by
  induction xs generalizing frs with
  | nil => rfl
  | cons x xs ih =>
    cases hx : readStep? frs x with
    | none => simp [readSteps?, hx]
    | some frs' => simp [readSteps?, hx, ih]

theorem readSteps?_cons_of_eq_some {frs frs' : List Frame} {s : Step} {steps : List Step}
    (h : readStep? frs s = some frs') : readSteps? frs (s :: steps) = readSteps? frs' steps := by
  simp [readSteps?, h]

/-- Whether steps are read as a member of any level that expects one. -/
def Reads (steps : List Step) (f : Formula Term) : Prop :=
  ∀ (fr : Frame) (rest : List Frame), fr.expects = true →
    readSteps? (fr :: rest) steps = some (fr.taken [f] :: rest)

variable {members : List (List Step × Formula Term)} {j : Connective}

/-- Members that are separated by the connective of a level. -/
theorem readSteps?_separated (hne : members ≠ []) (h : ∀ m ∈ members, Reads m.1 m.2) {fr : Frame}
    {rest : List Frame} (he : fr.expects = true) (hj : fr.connective = some j) :
    readSteps? (fr :: rest) (separated j (members.map Prod.fst)) =
      some (fr.taken (members.map Prod.snd) :: rest) := by
  induction members generalizing fr with
  | nil => exact absurd rfl hne
  | cons m ms ih =>
    rw [List.forall_mem_cons] at h
    cases ms with
    | nil =>
      rw [List.map_singleton, List.map_singleton, separated_singleton]
      exact h.1 fr rest he
    | cons m' ms =>
      have hsep : readStep? (fr.taken [m.2] :: rest) (.call (.separator j)) =
          some (⟨fr.kind, some j, fr.members ++ [m.2], true⟩ :: rest) := by
        simp [readStep?, Frame.separate, Frame.taken, hj]
      rw [List.map_cons, List.map_cons, separated_cons_cons, readSteps?_append, h.1 fr rest he,
        Option.bind_some, readSteps?_cons_of_eq_some hsep, ← List.map_cons]
      refine (ih (List.cons_ne_nil _ _) h.2 rfl rfl).trans ?_
      simp [Frame.taken, hj]

/-- Members of a level that has no connective yet. -/
theorem readSteps?_level (hlen : 2 ≤ members.length) (h : ∀ m ∈ members, Reads m.1 m.2)
    {fr : Frame} {rest : List Frame} (he : fr.expects = true) (hj : fr.connective = none) :
    readSteps? (fr :: rest) (separated j (members.map Prod.fst)) =
      some ({ fr.taken (members.map Prod.snd) with connective := some j } :: rest) := by
  rcases members with _ | ⟨m, _ | ⟨m', ms⟩⟩
  · simp at hlen
  · simp at hlen
  · rw [List.forall_mem_cons] at h
    have hsep : readStep? (fr.taken [m.2] :: rest) (.call (.separator j)) =
        some (⟨fr.kind, some j, fr.members ++ [m.2], true⟩ :: rest) := by
      simp [readStep?, Frame.separate, Frame.taken, hj]
    rw [List.map_cons, List.map_cons, separated_cons_cons, readSteps?_append, h.1 fr rest he,
      Option.bind_some, readSteps?_cons_of_eq_some hsep, ← List.map_cons]
    refine (readSteps?_separated (List.cons_ne_nil _ _) h.2 rfl rfl).trans ?_
    simp [Frame.taken]

theorem readStep?_append {q : FilterQuery} : Reads [.call (.append q)] (.atom (.fragment q)) := by
  intro fr rest he
  simp [readSteps?, readStep?, Frame.add, he, Frame.taken]

theorem reads_braced (hlen : 2 ≤ members.length) (h : ∀ m ∈ members, Reads m.1 m.2) :
    Reads (braced (separated j (members.map Prod.fst))) (.combined j (members.map Prod.snd)) := by
  intro fr rest he
  have hclose : readStep? (⟨.brace, some j, members.map Prod.snd, false⟩ :: fr :: rest)
      (.call .closeBrace) = some (fr.taken [.combined j (members.map Prod.snd)] :: rest) := by
    simp [readStep?, Frame.braced?, Frame.content?, Frame.add, he, Frame.taken]
  rw [braced, readSteps?_cons_of_eq_some rfl, readSteps?_append, readSteps?_level hlen h rfl rfl,
    Option.bind_some]
  exact readSteps?_cons_of_eq_some hclose

theorem reads_complement {steps : List Step} {f : Formula Term} (h : Reads steps f) :
    Reads (.call .openComplement :: (steps ++ [.call .closeBrace])) (.complement f) := by
  intro fr rest he
  have hclose : readStep? (⟨.complement, none, [f], false⟩ :: fr :: rest)
      (.call .closeBrace) = some (fr.taken [.complement f] :: rest) := by
    simp [readStep?, Frame.braced?, Frame.content?, Frame.add, he, Frame.taken]
  rw [readSteps?_cons_of_eq_some rfl, readSteps?_append, h _ _ rfl, Option.bind_some]
  exact readSteps?_cons_of_eq_some hclose

theorem reads_join {c : Command} {nodeType : String} {qs : List FilterQuery}
    (hc : c.Opens nodeType qs) (hne : members ≠ []) (h : ∀ m ∈ members, Reads m.1 m.2) :
    Reads (.call c :: (separated .and (members.map Prod.fst) ++ [.call .endJoin]))
      (.join nodeType (.combined .and
        ((Frame.ofJoin nodeType qs).members ++ members.map Prod.snd))) := by
  intro fr rest he
  have hopen : readStep? (fr :: rest) (.call c) = some (.ofJoin nodeType qs :: fr :: rest) := by
    rcases hc with rfl | rfl <;> rfl
  have hclose : readStep? ((Frame.ofJoin nodeType qs).taken (members.map Prod.snd) :: fr :: rest)
      (.call .endJoin) = some (fr.taken [.join nodeType (.combined .and
        ((Frame.ofJoin nodeType qs).members ++ members.map Prod.snd))] :: rest) := by
    simp [readStep?, Frame.joined?, Frame.content?, Frame.add, he, Frame.taken, Frame.ofJoin]
  rw [readSteps?_cons_of_eq_some hopen, readSteps?_append,
    readSteps?_separated hne h rfl rfl, Option.bind_some]
  exact readSteps?_cons_of_eq_some hclose

variable {ctx : Context}

/-- A part of a script with the formula that it is read as. -/
def reading (m : List Step × Formula (Labelled ctx)) : List Step × Formula Term :=
  (m.1, m.2.map Labelled.term)

theorem map_fst_reading (ms : List (List Step × Formula (Labelled ctx))) :
    (ms.map reading).map Prod.fst = ms.map Prod.fst := by
  rw [List.map_map]
  rfl

theorem map_snd_reading (ms : List (List Step × Formula (Labelled ctx))) :
    (ms.map reading).map Prod.snd = (ms.map Prod.snd).map (Formula.map Labelled.term) := by
  rw [List.map_map, List.map_map]
  rfl

theorem reads_reading {ms : List (List Step × Formula (Labelled ctx))}
    (h : ∀ m ∈ ms, Succeeds m.1 → Reads m.1 (m.2.map Labelled.term))
    (hs : Succeeds (separated j (ms.map Prod.fst))) : ∀ m ∈ ms.map reading, Reads m.1 m.2 := by
  rw [List.forall_mem_map]
  exact fun m hm => h m hm (succeeds_separated hs m.1 (List.mem_map_of_mem hm))

/-- A join is read as a conjunction that starts with the condition on the node type and the
document filters. -/
theorem map_term_join {nodeType : String} {qs : List FilterQuery} {filters : List (Labelled ctx)}
    (hf : filters.map Labelled.term = qs.map .fragment) (fs : List (Formula (Labelled ctx))) :
    (Formula.join nodeType (.combined .and
        (.atom (.nodeType ctx nodeType) :: (filters.map .atom ++ fs)))).map Labelled.term =
      .join nodeType (.combined .and
        ((Frame.ofJoin nodeType qs).members ++ fs.map (Formula.map Labelled.term))) := by
  have hfilters : filters.map (fun a => .atom a.term) =
      qs.map fun q => Formula.atom (Term.fragment q) := by
    simpa [Function.comp_def] using congrArg (List.map Formula.atom) hf
  rw [Formula.map, Formula.map_combined, List.map_cons, List.map_append, List.map_map,
    Frame.ofJoin, ← hfilters]
  rfl

/-- An operand is read as its formula. -/
theorem reads_of_operand {here : String} {steps : List Step} {φ : Formula (Labelled ctx)}
    (h : Operand ctx here steps φ) (hs : Succeeds steps) :
    Reads steps (φ.map Labelled.term) := by
  induction h with
  | failed f rest φ => exact absurd List.mem_cons_self (hs f)
  | fragment ha hq =>
    rw [Formula.map, ha]
    exact readStep?_append
  | brace hlen h ih =>
    rw [braced, succeeds_cons_call, succeeds_append] at hs
    rw [Formula.map_combined, ← map_fst_reading, ← map_snd_reading]
    exact reads_braced (by rwa [List.length_map]) (reads_reading ih hs.1)
  | complement h ih =>
    rw [succeeds_cons_call, succeeds_append] at hs
    exact reads_complement (ih hs.1)
  | @join nodeType c qs filters members hc hn hf hq hne h ih =>
    rw [succeeds_cons_call, succeeds_append] at hs
    rw [map_term_join hf, ← map_snd_reading, ← map_fst_reading]
    exact reads_join hc (by simpa using hne) (reads_reading ih hs.1)

/-- A filter query is read as its formula. -/
theorem read?_of_query {steps : List Step} {φ : Formula (Labelled ctx)} (h : Query ctx steps φ)
    (hs : Succeeds steps) : read? steps = some (φ.map Labelled.term) := by
  cases h with
  | operand h =>
    rw [read?, reads_of_operand h hs _ _ rfl]
    rfl
  | @combined j members hlen h =>
    rw [Formula.map_combined, ← map_fst_reading, ← map_snd_reading, read?,
      readSteps?_level (by rwa [List.length_map])
        (reads_reading (fun m hm => reads_of_operand (h m hm)) hs) rfl rfl]
    simp [Frame.taken, Frame.content?]

end Script

end AudienceFilter
