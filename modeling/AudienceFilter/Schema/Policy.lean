import AudienceFilter.Schema.Mapping

/-!
# Policies

A policy says where arguments are stored that nobody assigned. The policy of dynamic fields goes by
a naming convention: arguments that are named like dynamic fields of the index (`color_s`,
`scores_is`, `updated_dt`) are stored in the field of the same name, and the ending of the name
decides the type, the kind of the field and whether it holds several values.
-/

namespace AudienceFilter

/-- Where arguments are stored that have no assignment of their own; `none` where the policy does
not know an argument. -/
abbrev Policy := String → Option Assignment

/-- What the ending of a field name stands for. -/
structure Suffix where
  ending : String
  argType : ArgType
  kind : FieldKind
  isCollection : Bool

/-- The endings of dynamic fields; the first that fits decides. -/
def dynamicSuffixes : List Suffix := [
  ⟨"_dts", .date, .date, true⟩,
  ⟨"_ss", .string, .string, true⟩,
  ⟨"_is", .integer, .integer, true⟩,
  ⟨"_ls", .integer, .long, true⟩,
  ⟨"_ds", .decimal, .double, true⟩,
  ⟨"_dt", .date, .date, false⟩,
  ⟨"_s", .string, .string, false⟩,
  ⟨"_i", .integer, .integer, false⟩,
  ⟨"_l", .integer, .long, false⟩,
  ⟨"_d", .decimal, .double, false⟩,
  ⟨"_b", .bool, .boolean, false⟩]

/-- Whether a field name ends so, with something in front of the ending. -/
def Suffix.fits (s : Suffix) (name : List Char) : Bool :=
  s.ending.toList.length < name.length && s.ending.toList.isSuffixOf name

/-- Stores arguments that start with `lead` by naming convention in fields of a node type; the
field name is what follows `lead`. -/
structure DynamicFields where
  nodeType : String
  lead : String := ""
  isMultiDoc : Bool := false
deriving DecidableEq, Repr

/-- What follows `lead` in a list of characters that starts with it. -/
def afterLead? : List Char → List Char → Option (List Char)
  | [], cs => some cs
  | _ :: _, [] => none
  | l :: lead, c :: cs => if l = c then afterLead? lead cs else none

/-- The policy that stores arguments in dynamic fields. -/
def DynamicFields.policy (p : DynamicFields) : Policy := fun arg => do
  let name ← afterLead? p.lead.toList arg.toList
  if Text.isNameChars name then
    let suffix ← dynamicSuffixes.find? fun s => s.fits name
    return {
      arg
      argType := suffix.argType
      field :=
        { nodeType := p.nodeType
          name := String.ofList name
          type := { kind := suffix.kind }
          isCollection := suffix.isCollection }
      isMultiDoc := p.isMultiDoc }
  else none

end AudienceFilter
