import AudienceFilter.Context

/-!
# Directives in effect

A context keeps the directives in effect beside its variables, one of which lists directives. Its
variables can be set one by one or several at once, and they can be set back. After any such
updates the directives still belong to the variables:

* `Variables.get?_set`, `Variables.get?_setAll`: of several values given to a variable the newest
  counts;
* `Context.Current.update`, `Context.Current.updateAll`: updates keep the directives in step with
  the variables;
* `Context.directives_inEffect`: which directives are in effect after updates of a new context.
-/

namespace AudienceFilter

/-! ## Variables -/

namespace Variables

theorem get?_cons (v : String × String) (vars : Variables) (name : String) :
    get? (v :: vars) name = if v.1 = name then some v.2 else vars.get? name := by
  rw [get?, List.find?_cons]
  by_cases h : v.1 = name
  · simp [h]
  · simp [h, get?]

theorem get?_append (newer vars : Variables) (name : String) :
    get? (newer ++ vars) name = (newer.get? name).or (vars.get? name) := by
  rw [get?, List.find?_append, Option.map_or]
  rfl

theorem isSome_get? (vars : Variables) (name : String) :
    (vars.get? name).isSome = vars.any fun v => v.1 = name := by
  rw [get?, Option.isSome_map, List.isSome_find?]

/-- Changing the value behind one name changes nothing behind the others. -/
theorem get?_map (vars : Variables) (name value other : String) :
    get? (vars.map fun v => if v.1 = name then (name, value) else v) other =
      if other = name then (vars.get? other).map fun _ => value else vars.get? other := by
  induction vars with
  | nil => simp [get?]
  | cons v vars ih =>
    rw [List.map_cons, get?_cons, ih, get?_cons]
    by_cases hv : v.1 = name
    · simp only [hv, if_true]
      by_cases ho : name = other
      · simp [ho]
      · simp [ho]
    · simp only [hv, if_false]
      by_cases ho : v.1 = other
      · have : other ≠ name := ho ▸ hv
        simp [ho, this]
      · simp [ho]

/-- A value that is given to a variable counts as if it stood in front of the others. -/
theorem get?_set (vars : Variables) (name value other : String) :
    (vars.set name value).get? other = get? ((name, value) :: vars) other := by
  rw [set, get?_cons, ← isSome_get?]
  by_cases h : (vars.get? name).isSome = true
  · rw [if_pos h, get?_map]
    by_cases ho : name = other
    · subst ho
      obtain ⟨old, hold⟩ := Option.isSome_iff_exists.1 h
      simp [hold]
    · simp [ho, Ne.symm ho]
  · rw [if_neg h, get?_append, get?_cons]
    by_cases ho : name = other
    · subst ho
      have hnone : vars.get? name = none := by simpa using h
      simp [hnone]
    · simp [ho, get?]

/-- Of several values given to a variable the newest counts. -/
theorem get?_setAll (vars new : Variables) (name : String) :
    (vars.setAll new).get? name = get? (new.reverse ++ vars) name := by
  induction new generalizing vars with
  | nil => rfl
  | cons v new ih =>
    have hstep : vars.setAll (v :: new) = (vars.set v.1 v.2).setAll new := rfl
    rw [hstep, ih, get?_append, get?_set, List.reverse_cons, List.append_assoc, get?_append]
    rfl

end Variables

/-! ## Updates -/

namespace Context

/-- An update of the variables of a context. -/
inductive Update where
  | set (name value : String)
  | setAll (new : Variables)
  | reset

/-- The assignments that count after an update, the newest first, given those before it and those
of the settings. -/
def Update.assigned (configured earlier : Variables) : Update → Variables
  | set name value => (name, value) :: earlier
  | setAll new => new.reverse ++ earlier
  | reset => configured

/-- The assignments that count after updates of a new context, the newest first. -/
def Update.assignedAll (configured : Variables) (updates : List Update) : Variables :=
  updates.foldl (fun earlier u => u.assigned configured earlier) configured

/-- The context after an update. -/
def update (ctx : Context) : Update → Context
  | .set name value => ctx.setVariable name value
  | .setAll new => ctx.setVariables new
  | .reset => ctx.reset

/-- The context after several updates. -/
def updateAll (ctx : Context) (updates : List Update) : Context := updates.foldl update ctx

/-- Whether a context belongs to settings and to the assignments that count, and its directives
to its variables. -/
structure Current (s : Settings) (assigned : Variables) (ctx : Context) : Prop where
  settings : ctx.settings = s
  valueOf? : ∀ name, ctx.valueOf? name = assigned.get? name
  directives : ctx.directives = Sorted.union
    ((ctx.valueOf? directivesVariable).elim [] Directive.parseList) s.directives

variable {s : Settings} {assigned : Variables} {ctx : Context}

theorem current_refresh (hsettings : ctx.settings = s)
    (hvalue : ∀ name, ctx.valueOf? name = assigned.get? name) : Current s assigned ctx.refresh := by
  subst hsettings
  rw [refresh_eq]
  exact ⟨rfl, hvalue, rfl⟩

theorem current_new (s : Settings) : Current s s.bindings (Context.new s) :=
  current_refresh rfl fun _ => rfl

/-- An update keeps the directives in step with the variables. Only a variable that lists no
directives is set without working them out again. -/
theorem Current.update (h : Current s assigned ctx) (u : Update) :
    Current s (u.assigned s.bindings assigned) (ctx.update u) := by
  cases u with
  | set name value =>
    have hset : ∀ other, (ctx.bindings.set name value).get? other =
        Variables.get? ((name, value) :: assigned) other := by
      intro other
      rw [Variables.get?_set, Variables.get?_cons, Variables.get?_cons, ← h.valueOf?]
      rfl
    change Current s ((name, value) :: assigned) (ctx.setVariable name value)
    rw [setVariable]
    by_cases hname : name = directivesVariable
    · rw [if_pos hname]
      exact current_refresh h.settings hset
    · rw [if_neg hname]
      refine ⟨h.settings, hset, ?_⟩
      have hlist : (ctx.bindings.set name value).get? directivesVariable =
          ctx.valueOf? directivesVariable := by
        rw [Variables.get?_set, Variables.get?_cons, if_neg hname]
        rfl
      change ctx.directives = Sorted.union (((ctx.bindings.set name value).get?
        directivesVariable).elim [] Directive.parseList) s.directives
      rw [hlist, h.directives]
  | setAll new =>
    refine current_refresh h.settings fun name => ?_
    change (ctx.bindings.setAll new).get? name = Variables.get? (new.reverse ++ assigned) name
    rw [Variables.get?_setAll, Variables.get?_append, Variables.get?_append, ← h.valueOf?]
    rfl
  | reset =>
    refine current_refresh h.settings fun name => ?_
    change ctx.settings.bindings.get? name = s.bindings.get? name
    rw [h.settings]

theorem Current.updateAll (h : Current s assigned ctx) (updates : List Update) :
    Current s (updates.foldl (fun earlier u => u.assigned s.bindings earlier) assigned)
      (ctx.updateAll updates) := by
  induction updates generalizing ctx assigned with
  | nil => exact h
  | cons u updates ih => exact ih (h.update u)

/-- Setting the variables back gives a new context. -/
theorem Current.reset_eq (h : Current s assigned ctx) : ctx.reset = Context.new s := by
  obtain ⟨rfl, -, -⟩ := h
  rw [reset, new, refresh_eq, refresh_eq]

/-- The directives of the settings are in effect, and those that the variable lists. -/
theorem Current.isEnabled_iff (h : Current s assigned ctx) (d : Directive) :
    ctx.isEnabled d = true ↔ d ∈ s.directives ∨
      ∃ list, ctx.valueOf? directivesVariable = some list ∧ d ∈ Directive.parseList list := by
  rw [isEnabled, List.contains_iff_mem, h.directives, Sorted.mem_union, or_comm]
  cases ctx.valueOf? directivesVariable with
  | none => simp
  | some list => simp

/-- After any updates of a new context the value of a variable is the newest since the last
reset, and the directives in effect are those of the settings together with those that the
variable for directives lists. So a directive of the settings stays on, one from a value that was
replaced does not, and a reset gives back a new context. -/
theorem directives_inEffect (s : Settings) (updates : List Update) :
    let ctx := (Context.new s).updateAll updates
    (∀ name, ctx.valueOf? name = (Update.assignedAll s.bindings updates).get? name) ∧
      ctx.directives = Sorted.union
        ((ctx.valueOf? directivesVariable).elim [] Directive.parseList) s.directives ∧
      (∀ d, ctx.isEnabled d = true ↔ d ∈ s.directives ∨
        ∃ list, ctx.valueOf? directivesVariable = some list ∧ d ∈ Directive.parseList list) ∧
      (∀ d ∈ s.directives, ctx.isEnabled d = true) ∧
      (∀ list d, (ctx.setVariable directivesVariable list).isEnabled d = true ↔
        d ∈ s.directives ∨ d ∈ Directive.parseList list) ∧
      ctx.reset = Context.new s := by
  have hcurrent := (current_new s).updateAll updates
  refine ⟨hcurrent.valueOf?, hcurrent.directives, hcurrent.isEnabled_iff, fun d hd => ?_,
    fun list d => ?_, hcurrent.reset_eq⟩
  · exact (hcurrent.isEnabled_iff d).2 (.inl hd)
  · have hset := hcurrent.update (.set directivesVariable list)
    have hvalue : (((Context.new s).updateAll updates).update
        (.set directivesVariable list)).valueOf? directivesVariable = some list := by
      rw [hset.valueOf?]
      exact (Variables.get?_cons _ _ _).trans (if_pos rfl)
    refine (hset.isEnabled_iff d).trans ?_
    rw [hvalue]
    simp

end Context

/-- Settings that disable snippets, and bounds by the variable for directives. -/
def Settings.restricted : Settings where
  mapping := .uniform { name := "visit", nature := .main } [] "visit"
  bindings := [(Context.directivesVariable, "DISABLE_LT_GT")]
  directives := [.disableContains]

theorem Context.directives_inEffect_restricted :
    let updates : List Update :=
      [.setAll [("town", "Ulm"), (directivesVariable, "disable_reference_matching, none")],
        .set "town" "Bonn"]
    let ctx := (Context.new .restricted).updateAll updates
    ctx.valueOf? "town" = some "Bonn" ∧
      ctx.directives = [.disableContains, .disableReferences] ∧
      ctx.isEnabled .disableContains = true ∧ ctx.isEnabled .disableOrder = false ∧
      ctx.reset.directives = [.disableContains, .disableOrder] := by
  intro updates ctx
  obtain ⟨hvalue, hdirectives, -, hconfigured, -, hreset⟩ := directives_inEffect .restricted updates
  have hlist : ctx.directives = [.disableContains, .disableReferences] :=
    hdirectives.trans (by decide +kernel)
  refine ⟨(hvalue "town").trans (by decide), hlist, hconfigured _ List.mem_cons_self, ?_, ?_⟩
  · rw [isEnabled, hlist]
    decide
  · rw [hreset]
    decide +kernel

end AudienceFilter
