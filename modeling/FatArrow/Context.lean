import FatArrow.Meaning.Evaluate
import FatArrow.Standard.Modules
import FatArrow.Syntax.ReadNode
import FatArrow.Tree.Fold
import FatArrow.Tree.Inline
import FatArrow.Tree.Path
import FatArrow.Tree.Printer
import FatArrow.Typing.Elaborate

/-!
Contexts: a registry of host types and the default namespaces, which reading, writing and folding
of lambdas go by.
-/

namespace FatArrow

/-- A registry and the default namespaces. -/
structure Context where
  registry : Registry
  namespaces : Namespaces

namespace Context

/-- The context with modules installed in order. -/
def ofModules (modules : List HostModule) (namespaces : Namespaces) :
    Except RegistrationError Context := do
  return ⟨← Registry.empty.installAll modules, namespaces⟩

/-- What is said when a module cannot be installed. -/
def installMessage (e : RegistrationError) : String := "failed to install module: " ++ e.message

/-- The standard modules and the namespaces of their types. -/
def standard (around : Surroundings) : Except RegistrationError Context :=
  ofModules (Standard.modules around) Namespaces.system

/-- The typed lambda that a text spells, of the expected shape if there is one. -/
def parse (c : Context) (text : String) (shape : Option LambdaShape) (resolver : Resolver) :
    Except BuildError Function :=
  match Syntax.parseLambda text with
  | .error e => .error (.ofSyntax e)
  | .ok written => (⟨c.registry.host, c.namespaces, resolver⟩ : Surface).elaborate shape written

/-- A lambda as text. -/
def text (c : Context) (f : Function) : String := f.text c.namespaces

/-- The lambda with its known members folded. -/
def fold (c : Context) (f : Function) (store : Store) : Function × FoldState :=
  f.fold c.registry.host store

end Context

end FatArrow
