import FatArrow.Host.Native

/-!
What a host says about its types: members, methods and constructors. Two descriptions are the same
when they say the same, whatever native functions they carry.
-/

namespace FatArrow

/-- A property or a field. -/
structure Member where
  name : String
  declaring : HostType
  type : HostType
  isStatic : Bool
  isField : Bool
  getter : Option Native

/-- A method. A free function has no declaring type; a sequence operation is a static method
called on its first argument. `arity` counts the parameters of a generic definition, `typeArgs` are
the types bound to them. -/
structure Method where
  name : String
  declaring : Option HostType
  params : List HostType
  returns : HostType
  isStatic : Bool
  isSequenceOp : Bool
  arity : Nat
  typeArgs : List HostType
  invoker : Option Native

/-- A constructor. -/
structure Constructor where
  declaring : HostType
  params : List HostType
  invoker : Option Native

namespace Member

/-- A member as it is named in messages. -/
def text (m : Member) : String := m.declaring.text ++ "." ++ m.name

/-- Equality of descriptions. -/
def same (a b : Member) : Bool :=
  a.name == b.name && a.declaring == b.declaring && a.type == b.type && a.isStatic == b.isStatic
    && a.isField == b.isField

/-- The value of a member. A static member and a member of a nullable type need no receiver. -/
def get (m : Member) (receiver : Option Value) : Eval Value :=
  match m.getter with
  | none => throw (.notInvocable m.text)
  | some native =>
    if !m.isStatic && !m.declaring.nullable && (receiver.getD .null).isNull then
      throw (.nullReference m.text)
    else native ⟨receiver, [], []⟩

end Member

namespace Method

/-- A method that is called on a receiver. -/
def onReceiver (name : String) (params : List HostType) (returns : HostType) : Method :=
  ⟨name, none, params, returns, false, false, 0, [], none⟩

/-- Equality of descriptions; the number of parameters of the definition does not count. -/
def same (a b : Method) : Bool :=
  a.name == b.name && a.declaring == b.declaring && a.params == b.params
    && a.returns == b.returns && a.isStatic == b.isStatic && a.isSequenceOp == b.isSequenceOp
    && a.typeArgs == b.typeArgs

/-- A generic definition whose parameters are not bound. -/
def isGenericDefinition (m : Method) : Bool := m.arity > 0 && m.typeArgs.isEmpty

/-- The method with types bound to its parameters. -/
def instantiate (m : Method) (typeArgs : List HostType) : Method :=
  { m with
    params := m.params.map (·.subst typeArgs)
    returns := m.returns.subst typeArgs
    typeArgs }

/-- The fingerprint of the name and the parameter types. -/
def signature (m : Method) : Fingerprint :=
  Fingerprint.ofSignature m.name (m.params.map HostType.fingerprint)

/-- The outcome of a call. -/
def invoke (m : Method) (receiver : Option Value) (args : List Value) : Eval Value :=
  match m.invoker with
  | none => throw (.notInvocable m.name)
  | some native => native ⟨receiver, args, m.typeArgs⟩

end Method

namespace Constructor

/-- Equality of descriptions. -/
def same (a b : Constructor) : Bool := a.declaring == b.declaring && a.params == b.params

/-- The object that is made from arguments. -/
def invoke (c : Constructor) (args : List Value) : Eval Value :=
  match c.invoker with
  | none => throw (.notInvocable ("new " ++ c.declaring.text))
  | some native => native ⟨none, args, []⟩

end Constructor

end FatArrow
