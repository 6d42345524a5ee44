import CodeFirst.Directive.Definition

/-! Directives every schema defines. -/

namespace CodeFirst

/-- The reason meant by `@deprecated` alone. -/
def defaultDeprecationReason : String := "No longer supported"

namespace DirectiveDefinition

def make (name description : String) (arguments : List DirectiveArgument)
    (locations : List DirectiveLocation) : DirectiveDefinition :=
  ⟨name, some description, .ofList (arguments.map fun a => (a.name, a)), locations, false⟩

def includeIf : DirectiveDefinition :=
  make "include"
    "Directs the executor to include this field or fragment only when the `if` argument is true."
    [⟨"if", some "Included when true.", "Boolean!", none⟩]
    [.field, .fragmentSpread, .inlineFragment]

def skipIf : DirectiveDefinition :=
  make "skip" "Directs the executor to skip this field or fragment when the `if` argument is true."
    [⟨"if", some "Skipped when true.", "Boolean!", none⟩]
    [.field, .fragmentSpread, .inlineFragment]

def deprecated : DirectiveDefinition :=
  make "deprecated" "Marks an element of a GraphQL schema as no longer supported."
    [⟨"reason", some "Explains why this element was deprecated.", "String",
      some (.str defaultDeprecationReason)⟩]
    [.fieldDefinition, .argumentDefinition, .inputFieldDefinition, .enumValue]

def specifiedBy : DirectiveDefinition :=
  make "specifiedBy" "Exposes a URL that specifies the behavior of this scalar."
    [⟨"url", some "The URL that specifies the behavior of this scalar.", "String!", none⟩]
    [.scalar]

def specified : List DirectiveDefinition := [includeIf, skipIf, deprecated, specifiedBy]

def isSpecified (name : String) : Bool :=
  name == "include" || name == "skip" || name == "deprecated" || name == "specifiedBy"

theorem isSpecified_iff (name : String) :
    isSpecified name = true ↔ name ∈ specified.map (·.name) := by
  simp [isSpecified, specified, includeIf, skipIf, deprecated, specifiedBy, make, or_assoc]

end DirectiveDefinition

end CodeFirst
