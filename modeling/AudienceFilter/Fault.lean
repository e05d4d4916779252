import AudienceFilter.Error

/-!
# Faults

A fault says that a rule was broken which a caller has to keep: a malformed tree, or a builder
used out of order. Conversions of checked mappings meet none.
-/

namespace AudienceFilter

/-- A broken rule. -/
inductive Fault where
  | blankQuery
  | queryWithoutField (query : String)
  | queryWithoutKind (query : String)
  | joinInsideJoin (nodeType outer : String)
  | endWithoutJoin
  | braceOpenInJoin (count : Nat) (nodeType : String)
  | closeWithoutOpen
  | foreignFragment (query expected : String)
  | resultInsideJoin (nodeType : String)
  | braceOpenAtResult (count : Nat)
  | resultWithoutContent
  | leafNodeType (name condition : String)
  | membersNodeType (name : String)
  | strayVerification (polarity subject : String)
  | noMembers
  | differentArgs
  | unknownMember
  | incompatibleMembers
  | notLowerBound
  | notUpperBound
  | boundsArg
  | boundsNodeType
  | boundsPolarity
  | boundsVerification
  | fewChildren
  | fewGroupMembers
  | foreignGroupMember (nodeType : String)
  | unresolvedExtent (name : String)
  | fragmentOfInner (tree : String)
  | complementOfInner (tree : String)
  | joinOfMain (nodeType current : String)
  | noValueCondition
  | noComparison (symbol arg other : String)
deriving DecidableEq, Repr

/-- The text of the fault. -/
def Fault.message : Fault → String
  | blankQuery => "filter query must not be blank"
  | queryWithoutField query => s!"filter query {query} must reference at least one field"
  | queryWithoutKind query => s!"filter query {query} must have at least one condition type"
  | joinInsideJoin nodeType outer =>
    s!"cannot start a join on {nodeType} inside the join on {outer}"
  | endWithoutJoin => "end_join() without an open join"
  | braceOpenInJoin count nodeType =>
    s!"end_join() with {count} unclosed brace(s) inside the join on {nodeType}"
  | closeWithoutOpen => "close_brace() without an open brace"
  | foreignFragment query expected => s!"fragment {query} does not belong to node type {expected}"
  | resultInsideJoin nodeType => s!"get_result() inside the join on {nodeType}"
  | braceOpenAtResult count => s!"get_result() with {count} unclosed brace(s)"
  | resultWithoutContent => "get_result() without any content"
  | leafNodeType name condition => s!"invalid node type {Text.quote name} for {condition}"
  | membersNodeType name => s!"invalid node type {Text.quote name}"
  | strayVerification polarity subject => s!"{polarity} requires a reference match, got {subject}"
  | noMembers => "multi match without members"
  | differentArgs => "multi match members must share the argument"
  | unknownMember => "IS UNKNOWN cannot be part of a multi match"
  | incompatibleMembers => "incompatible multi match members"
  | notLowerBound => "left side of a between must be a lower bound"
  | notUpperBound => "right side of a between must be an upper bound"
  | boundsArg => "between bounds must share the argument"
  | boundsNodeType => "between bounds must share the node type"
  | boundsPolarity => "between bounds must share the instruction"
  | boundsVerification => "between cannot verify values"
  | fewChildren => "combined element needs at least two children"
  | fewGroupMembers => "node type group needs at least two children"
  | foreignGroupMember nodeType => s!"all members of a group must be of node type {nodeType}"
  | unresolvedExtent name =>
    s!"special set {name} must be resolved before building the match tree"
  | fragmentOfInner tree => s!"filter queries can only be created for leaves, got {tree}"
  | complementOfInner tree =>
    s!"in-document complements can only be created for leaves, got {tree}"
  | joinOfMain nodeType current => s!"main node type {nodeType} cannot be joined from {current}"
  | noValueCondition =>
    "internal error: entered unreachable code: IS UNKNOWN has no value condition"
  | noComparison symbol arg other =>
    s!"internal error: entered unreachable code: {symbol} cannot compare {arg} with @{other}"

/-- How a conversion ends without a result: with an error to report, or at a broken rule. -/
inductive Failure where
  | error (e : ConversionError)
  | fault (f : Fault)
deriving DecidableEq, Repr

/-- A result of a conversion step. -/
abbrev Result (α : Type) := Except Failure α

/-- Takes an error as a failure of the conversion. -/
def liftError {α : Type} (r : Except ConversionError α) : Result α := r.mapError .error

/-- Takes a refused name as a failure of the conversion. -/
def liftName {α : Type} (r : Except MappingError α) : Result α :=
  r.mapError fun e => .error (.mapping e)

/-- Takes a broken rule as a failure of the conversion. -/
def liftFault {α : Type} (r : Except Fault α) : Result α := r.mapError .fault

end AudienceFilter
