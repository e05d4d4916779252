import AudienceFilter.Sorted
import AudienceFilter.Text.Blank

/-!
# Directives

Switches that restrict what a conversion may produce. A text lists them by name, separated by
commas.
-/

namespace AudienceFilter

/-- A restriction on conversions. -/
inductive Directive where
  | disableContains
  | disableOrder
  | disableReferences
  | disableAlignment
deriving DecidableEq, Repr

/-- A text that is no directive. -/
structure UnknownDirective where
  text : String
deriving DecidableEq, Repr

/-- The text of the error. -/
def UnknownDirective.message (e : UnknownDirective) : String :=
  s!"Unknown conversion directive: {e.text}"

namespace Directive

/-- The name of the directive. -/
def name : Directive → String
  | disableContains => "DISABLE_CONTAINS"
  | disableOrder => "DISABLE_LT_GT"
  | disableReferences => "DISABLE_REFERENCE_MATCHING"
  | disableAlignment => "DISABLE_DATE_TIME_ALIGNMENT"

/-- Every directive, in order. -/
def all : List Directive := [disableContains, disableOrder, disableReferences, disableAlignment]

/-- The place of the directive in the order. -/
def rank : Directive → Nat
  | disableContains => 0
  | disableOrder => 1
  | disableReferences => 2
  | disableAlignment => 3

instance : Ord Directive := ⟨fun a b => compare a.rank b.rank⟩

instance : Std.LawfulEqOrd Directive where
  compare_self {a} := by
    show compare a.rank a.rank = .eq
    simp
  eq_of_compare {a b} h := by
    have h : compare a.rank b.rank = .eq := h
    have h : a.rank = b.rank := Std.LawfulEqOrd.eq_of_compare h
    cases a <;> cases b <;> first | rfl | exact absurd h (by decide)

/-- The directive that characters name, in any case and with white space around them. -/
def ofChars? (cs : List Char) : Option Directive :=
  let word := String.ofList ((Text.trimChars cs).map Char.toUpper)
  all.find? fun d => d.name = word

/-- Reads one directive. -/
def parse (text : String) : Except UnknownDirective Directive :=
  match ofChars? text.toList with
  | some d => .ok d
  | none => .error { text }

/-- Reads a list of directives; entries that name none are skipped. -/
def parseList (text : String) : List Directive :=
  Sorted.ofList ((text.toList.splitOn ',').filterMap ofChars?)

end Directive

end AudienceFilter
