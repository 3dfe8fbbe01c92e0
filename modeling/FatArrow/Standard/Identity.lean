import FatArrow.Standard.Declare
import FatArrow.Standard.Surroundings
import FatArrow.Standard.Text

/-!
Identifiers and cultures.
-/

namespace FatArrow.Standard

/-- The identifier that a text spells; blanks around it do not count. -/
def readGuid (s : String) : Except EvalError Guid :=
  match Guid.parse? (Text.trim s) with
  | some g => .ok g
  | none => .error (.reported ("invalid Guid '" ++ s ++ "'"))

/-- The identifier that a value is. -/
def asGuid? : Value → Option Guid
  | .guid g => some g
  | _ => none

/-- The identifier that the first argument spells. -/
def guidNative : Native := fun call => return .guid (← readGuid (← call.argText 0))

/-- Identifiers. -/
def guid (around : Surroundings) : TypeDecl :=
  { TypeDecl.ofName "Guid" with
    properties := [constant "Empty" .guid (.guid Guid.zero)]
    methods := [
      staticMethod "NewGuid" [] .guid fun _ => return .guid around.freshGuid,
      staticMethod "Parse" [.string] .guid guidNative,
      method "ToString" [] .string fun call =>
        return .string (← thisAs call asGuid? "Guid").text]
    constructors := [⟨[.string], guidNative⟩] }

/-- The module of identifiers. -/
def identifiers (around : Surroundings) : HostModule :=
  HostModule.ofNamespace "System" [guid around]

/-- Cultures. Each answer is a new object. -/
def culture (around : Surroundings) : TypeDecl :=
  { TypeDecl.ofName "CultureInfo" with
    properties := [
      staticProperty "InvariantCulture" cultureInfo fun _ => makeObject cultureInfo (.culture ""),
      staticProperty "CurrentCulture" cultureInfo fun _ =>
        makeObject cultureInfo (.culture around.culture),
      property "Name" .string fun call => do
        let v ← call.this
        match payloadOf v (← get) with
        | some (.culture name) => return .string name
        | _ => throw (.typeMismatch "CultureInfo" v.typeName)]
    constructors := [
      ⟨[.string], fun call => do makeObject cultureInfo (.culture (← call.argText 0))⟩] }

/-- The module of cultures. -/
def cultures (around : Surroundings) : HostModule :=
  HostModule.ofNamespace "System.Globalization" [culture around]

end FatArrow.Standard
