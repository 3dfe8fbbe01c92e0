import FatArrow.Types.HostType

/-!
Which type can stand for which. A host says what the items of its sequence types are and what
derives from what; the rest follows from the shapes of the two types.
-/

namespace FatArrow

/-- What a host says about the order of its types. -/
structure TypeOrder where
  /-- The type of the items, if the type is one of sequences. -/
  itemType? : HostType → Option HostType
  /-- Whether values of the source type are values of the target type by declaration. -/
  derives : (target source : HostType) → Bool

/-- The type of the items of an array or of the common sequence type. -/
def HostType.itemType? (t : HostType) : Option HostType :=
  if t.nullable then none
  else
    match t.element? with
    | some element => some element
    | none => if t.isNamed WellKnown.enumerable then t.args.head? else none

/-- The type below a nullable one. -/
def HostType.belowNull? (t : HostType) : Option HostType :=
  if t.nullable then some t.underlying else none

namespace TypeOrder

/-- Arrays are sequences, and nothing derives from anything. -/
def bare : TypeOrder := ⟨HostType.itemType?, fun _ _ => false⟩

/-- A sequence for the common sequence type of the same items; no answer where one of the two is
no type of sequences. -/
def fitsSequence? (o : TypeOrder) (target source : HostType) : Option Bool :=
  if target.isNamed WellKnown.enumerable && !source.nullable then do
    let expected ← target.args.head?
    let actual ← o.itemType? source
    return expected == actual
  else none

/-- Whether a value of the source type can stand for one of a target type without null: by
identity, as an object, by widening, or as a sequence of the same items. Every value can stand for
one of a generic parameter. -/
def fitsPlain (o : TypeOrder) (target source : HostType) : Bool :=
  if target = source || target.isPrimitive .object then true
  else
    match target.primitive?, source.primitive? with
    | some wide, some narrow => !source.nullable && narrow.widensTo wide
    | _, _ =>
      (o.fitsSequence? target source).getD
        (match target.shape with
         | .param _ => true
         | _ => false)

/-- Whether a value of the source type can stand for one of the target type by the shapes of the
two. What fits a type fits it with null added. -/
def fits (o : TypeOrder) (target source : HostType) : Bool :=
  if target = source then true
  else if target.nullable then
    o.fitsPlain target.underlying source.underlying
      || o.derives target.underlying source.underlying
  else o.fitsPlain target source

/-- Whether a value of the source type can stand for one of the target type. -/
def assignable (o : TypeOrder) (target source : HostType) : Bool :=
  o.fits target source || o.derives target source

end TypeOrder

end FatArrow
