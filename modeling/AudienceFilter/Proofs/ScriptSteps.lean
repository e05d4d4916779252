import AudienceFilter.Proofs.ConversionSafety

/-!
# The steps of a script

Scripts are put together in many places, but there are few kinds of steps in them. In particular
no join is opened in any other way than with all document filters of its node type.

* `Issued`: what a step can be;
* `allIssued_ofTree`, `allIssued_ofRoot`: every step of a script is one of those.
-/

namespace AudienceFilter.Script

/-- What a step of a script can be: the failure to come up with one, a brace, a connective, the
end of a join, a fragment that is written for a leaf or for the values of an argument, or the
start of a join with the document filters of its node type. -/
inductive Issued (ctx : Context) : Step → Prop
  | fail (f : Failure) : Issued ctx (.fail f)
  | openBrace : Issued ctx (.call .openBrace)
  | closeBrace : Issued ctx (.call .closeBrace)
  | openComplement : Issued ctx (.call .openComplement)
  | separator (j : Connective) : Issued ctx (.call (.separator j))
  | endJoin : Issued ctx (.call .endJoin)
  | known {arg : String} {q : FilterQuery} (h : ctx.anyValue arg = .ok q) :
      Issued ctx (.call (.append q))
  | found {l : Leaf} {q : FilterQuery} (hl : l.Made ctx) (h : ctx.leafFragment l = .ok q) :
      Issued ctx (.call (.append q))
  | missed {l : Leaf} {q : FilterQuery} (hl : l.Made ctx) (h : ctx.leafComplement l = .ok q) :
      Issued ctx (.call (.append q))
  | nested {nodeType : String} {info : NodeType} {qs : List FilterQuery}
      (hi : ctx.mapping.nodeType nodeType = .ok info) (hn : info.nature = .nested)
      (hq : ctx.documentFilters nodeType = .ok qs) : Issued ctx (.call (.startNested nodeType qs))
  | dependent {nodeType : String} {info : NodeType} {qs : List FilterQuery}
      (hi : ctx.mapping.nodeType nodeType = .ok info) (hn : info.nature = .dependent)
      (hq : ctx.documentFilters nodeType = .ok qs) :
      Issued ctx (.call (.startDependent nodeType qs))

/-- Whether all steps are issued. -/
abbrev AllIssued (ctx : Context) (steps : List Step) : Prop := ∀ s ∈ steps, Issued ctx s

variable {ctx : Context} {here nodeType : String} {steps : List Step}

theorem allIssued_append {xs ys : List Step} :
    AllIssued ctx (xs ++ ys) ↔ AllIssued ctx xs ∧ AllIssued ctx ys := List.forall_mem_append

theorem allIssued_cons {s : Step} {xs : List Step} :
    AllIssued ctx (s :: xs) ↔ Issued ctx s ∧ AllIssued ctx xs := List.forall_mem_cons

theorem allIssued_andThen {α : Type} {r : Result α} {next : α → List Step}
    (h : ∀ a, r = .ok a → AllIssued ctx (next a)) : AllIssued ctx (andThen r next) := by
  cases r with
  | ok a => exact h a rfl
  | error f =>
    intro s hs
    rw [List.mem_singleton.1 hs]
    exact .fail f

theorem allIssued_closed {s s' : Step} (hs : Issued ctx s) (hs' : Issued ctx s')
    (h : AllIssued ctx steps) : AllIssued ctx (s :: (steps ++ [s'])) := by
  refine allIssued_cons.2 ⟨hs, allIssued_append.2 ⟨h, fun x hx => ?_⟩⟩
  rw [List.mem_singleton.1 hx]
  exact hs'

theorem allIssued_bracedIf {brace : Bool} (h : AllIssued ctx steps) :
    AllIssued ctx (bracedIf brace steps) := by
  cases brace with
  | false => exact h
  | true => exact allIssued_closed .openBrace .closeBrace h

theorem allIssued_startJoin : AllIssued ctx (startJoin ctx here nodeType) := by
  refine allIssued_andThen fun qs hq => allIssued_andThen fun info hi => ?_
  intro s hs
  cases hn : info.nature with
  | main =>
    rw [hn, List.mem_singleton] at hs
    exact hs ▸ .fail _
  | nested =>
    rw [hn, List.mem_singleton] at hs
    exact hs ▸ .nested (liftError_eq_ok.1 hi) hn hq
  | dependent =>
    rw [hn, List.mem_singleton] at hs
    exact hs ▸ .dependent (liftError_eq_ok.1 hi) hn hq

theorem allIssued_joined (h : AllIssued ctx steps) :
    AllIssued ctx (joined ctx here nodeType steps) := by
  unfold joined
  split
  · exact h
  · refine allIssued_append.2 ⟨allIssued_startJoin, allIssued_append.2 ⟨h, fun s hs => ?_⟩⟩
    rw [List.mem_singleton.1 hs]
    exact .endJoin

theorem allIssued_inScope {q : FilterQuery} (h : Issued ctx (.call (.append q))) :
    AllIssued ctx (inScope ctx here nodeType q) := by
  refine allIssued_joined fun s hs => ?_
  rw [List.mem_singleton.1 hs]
  exact h

theorem allIssued_complement {q : FilterQuery} (h : Issued ctx (.call (.append q))) :
    AllIssued ctx (complement ctx here nodeType q) :=
  allIssued_closed .openComplement .closeBrace (allIssued_inScope h)

theorem allIssued_knownArgs (args : List String) :
    AllIssued ctx (knownArgs ctx here nodeType args) := by
  induction args with
  | nil => exact fun _ hs => absurd hs List.not_mem_nil
  | cons arg args ih =>
    refine allIssued_append.2 ⟨allIssued_andThen fun q hq => ?_, ih⟩
    refine allIssued_append.2 ⟨allIssued_inScope (.known hq), fun s hs => ?_⟩
    rw [List.mem_singleton.1 hs]
    exact .separator .and

theorem allIssued_plain {l : Leaf} (hl : l.Made ctx) : AllIssued ctx (plain ctx here l) := by
  refine allIssued_andThen fun q hq => ?_
  split
  · exact allIssued_inScope (.found hl hq)
  · exact allIssued_complement (.found hl hq)

theorem allIssued_inDocument {l : Leaf} (hl : l.Made ctx) :
    AllIssued ctx (inDocument ctx here l) := by
  refine allIssued_andThen fun multiDoc _ => ?_
  split
  · refine allIssued_andThen fun any hany => allIssued_andThen fun q hq => ?_
    refine allIssued_closed .openBrace .closeBrace (allIssued_append.2 ?_)
    refine ⟨allIssued_inScope (.known hany), allIssued_cons.2 ⟨.separator .and, ?_⟩⟩
    exact allIssued_complement (.found hl hq)
  · exact allIssued_andThen fun q hq => allIssued_inScope (.missed hl hq)

theorem allIssued_verified {l : Leaf} (hl : l.Made ctx) :
    AllIssued ctx (verified ctx here l) := by
  unfold verified
  split
  · intro s hs
    rw [List.mem_singleton.1 hs]
    exact .fail _
  · refine allIssued_andThen fun q hq => ?_
    refine allIssued_closed .openBrace .closeBrace (allIssued_append.2 ?_)
    exact ⟨allIssued_knownArgs _, allIssued_complement (.found hl hq)⟩

theorem allIssued_ofLeaf {l : Leaf} (hl : l.Made ctx) : AllIssued ctx (ofLeaf ctx here l) := by
  unfold ofLeaf
  split
  · exact allIssued_verified hl
  · split
    · split
      · refine allIssued_andThen fun any hany => ?_
        split
        · exact allIssued_complement (.known hany)
        · exact allIssued_inScope (.known hany)
      · exact allIssued_plain hl
    · split
      · exact allIssued_inDocument hl
      · exact allIssued_plain hl
    · split
      · exact allIssued_inDocument hl
      · exact allIssued_plain hl

theorem allIssued_separated {j : Connective} {parts : List (List Step)} :
    AllIssued ctx (separated j parts) ↔ ∀ x ∈ parts, AllIssued ctx x := by
  have hsep : Issued ctx (.call (.separator j)) := .separator j
  induction parts with
  | nil => simp [separated, AllIssued, List.intercalate]
  | cons x xs ih =>
    cases xs with
    | nil => rw [separated_singleton, List.forall_mem_singleton]
    | cons y ys =>
      rw [separated_cons_cons, allIssued_append, allIssued_cons, and_iff_right hsep]
      exact (and_congr_right fun _ => ih).trans List.forall_mem_cons.symm

/-- Every step of the script of a tree is issued. -/
theorem allIssued_ofTree {t : MatchTree} {top : Bool} (hm : ∀ l ∈ t.leaves, l.Made ctx) :
    AllIssued ctx (ofTree ctx here top t) := by
  induction t using MatchTree.memberInduction generalizing here top with
  | leaf l => exact allIssued_ofLeaf (hm l (List.mem_singleton_self l))
  | combined j children ih =>
    rw [MatchTree.forall_leaves_combined] at hm
    rw [ofTree, ofTrees_eq_map]
    refine allIssued_bracedIf (allIssued_separated.2 ?_)
    exact List.forall_mem_map.2 fun c hc => ih c hc (hm c hc)
  | group j nodeType children ih =>
    rw [MatchTree.leaves_group, List.forall_mem_flatMap] at hm
    rw [ofTree, ofTrees_eq_map]
    refine allIssued_joined (allIssued_bracedIf (allIssued_separated.2 ?_))
    exact List.forall_mem_map.2 fun c hc => ih c hc (hm c hc)

/-- Every step of the scripts of the filter queries is issued. -/
theorem allIssued_ofRoot {t : MatchTree} (hm : ∀ l ∈ t.leaves, l.Made ctx) :
    ∀ steps ∈ ofRoot ctx t, AllIssued ctx steps :=
  List.forall_mem_map.2 fun _ hx => allIssued_ofTree fun l hl => hm l (mem_leaves_parts hx hl)

end AudienceFilter.Script
