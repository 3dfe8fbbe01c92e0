import FatArrow.Proofs.Types.Induction
import FatArrow.Proofs.Types.Mixing
import FatArrow.Types.HostType
import Mathlib.Data.Set.Function

/-!
# What fingerprints tell of types

The imprint of a type is what its fingerprint is made from: the name or the parameter that stands
innermost, the imprints of the arguments, and how many arrays and nullable types are around it, whatever
their order.  Types of one imprint have one fingerprint.  Two imprints have different ones where they
differ in one place, as long as different names have different digests.
-/

namespace FatArrow

/-! ## 1. Imprints -/

/-- What stands innermost in a type; nothing does in an array without an element type. -/
inductive Head where
  | name (text : String)
  | param (position : Nat)
  | nothing

/-- What the fingerprint of a type is made from. -/
structure Imprint where
  head : Head
  args : List Imprint
  arrays : Nat
  nulls : Nat

namespace Imprint

/-- The imprint of the arrays of a type. -/
def inArray (i : Imprint) : Imprint := { i with arrays := i.arrays + 1 }

/-- The imprint of a type with null added. -/
def orNull (i : Imprint) : Imprint := { i with nulls := i.nulls + 1 }

theorem inArray_inj {i j : Imprint} (h : i.inArray = j.inArray) : i = j := by
  obtain ⟨head, args, arrays, nulls⟩ := i
  obtain ⟨head', args', arrays', nulls'⟩ := j
  simpa [inArray] using h

end Imprint

mutual
/-- The imprint of a type. -/
def HostType.imprint : HostType → Imprint
  | ⟨shape, args, nullable⟩ =>
    let base : Imprint :=
      match shape with
      | .primitive p => ⟨.name ("System." ++ p.hostName), [], 0, 0⟩
      | .named q => ⟨.name q.text, HostType.imprints args, 0, 0⟩
      | .array => ((HostType.imprints args).headD ⟨.nothing, [], 0, 0⟩).inArray
      | .param position => ⟨.param position, [], 0, 0⟩
    if nullable then base.orNull else base

/-- The imprints of types. -/
def HostType.imprints : List HostType → List Imprint
  | [] => []
  | t :: ts => t.imprint :: HostType.imprints ts
end

/-- The fingerprint of what stands innermost. -/
def Head.fingerprint : Head → Fingerprint
  | .name text => .ofName text
  | .param position => .ofGenericParam position
  | .nothing => .empty

mutual
/-- The fingerprint that an imprint makes. -/
def Imprint.fingerprint : Imprint → Fingerprint
  | ⟨head, args, arrays, nulls⟩ =>
    ⟨(Fingerprint.mix head.fingerprint.bits (Imprint.fingerprints args)).bits +
      Fingerprint.layers arrays nulls⟩

/-- The fingerprints that imprints make. -/
def Imprint.fingerprints : List Imprint → List Fingerprint
  | [] => []
  | i :: is => i.fingerprint :: Imprint.fingerprints is
end

/-- The name that stands innermost. -/
def Head.names : Head → List String
  | .name text => [text]
  | .param _ | .nothing => []

mutual
/-- The names in an imprint. -/
def Imprint.names : Imprint → List String
  | ⟨head, args, _, _⟩ => head.names ++ Imprint.namesList args

/-- The names in imprints. -/
def Imprint.namesList : List Imprint → List String
  | [] => []
  | i :: is => i.names ++ Imprint.namesList is
end

@[simp] theorem HostType.imprints_eq_map (ts : List HostType) :
    HostType.imprints ts = ts.map HostType.imprint := by
  induction ts with
  | nil => rfl
  | cons t ts ih => simp [HostType.imprints, ih]

namespace HostType

@[simp] theorem imprint_named (q : QualifiedName) (args : List HostType) (nullable : Bool) :
    imprint ⟨.named q, args, nullable⟩ = ⟨.name q.text, args.map imprint, 0, nullable.toNat⟩ := by
  rw [← imprints_eq_map]
  cases nullable <;> rfl

@[simp] theorem imprint_primitive (p : Primitive) (nullable : Bool) :
    imprint ⟨.primitive p, [], nullable⟩ =
      ⟨.name ("System." ++ p.hostName), [], 0, nullable.toNat⟩ := by
  cases nullable <;> rfl

@[simp] theorem imprint_param (position : Nat) (nullable : Bool) :
    imprint ⟨.param position, [], nullable⟩ = ⟨.param position, [], 0, nullable.toNat⟩ := by
  cases nullable <;> rfl

@[simp] theorem imprint_arrayOf (t : HostType) : (arrayOf t).imprint = t.imprint.inArray := rfl

end HostType

namespace Imprint

@[simp] theorem fingerprints_eq_map (is : List Imprint) :
    fingerprints is = is.map fingerprint := by
  induction is with
  | nil => rfl
  | cons i is ih => simp [fingerprints, ih]

@[simp] theorem namesList_eq_flatMap (is : List Imprint) : namesList is = is.flatMap names := by
  induction is with
  | nil => rfl
  | cons i is ih => simp [namesList, ih]

theorem fingerprint_eq (head : Head) (args : List Imprint) (arrays nulls : Nat) :
    fingerprint ⟨head, args, arrays, nulls⟩ =
      ⟨(Fingerprint.mix head.fingerprint.bits (args.map fingerprint)).bits +
        Fingerprint.layers arrays nulls⟩ := by
  rw [fingerprint, fingerprints_eq_map]

open scoped UInt64.CommRing in
theorem fingerprint_inArray (i : Imprint) :
    i.inArray.fingerprint = Fingerprint.ofArray i.fingerprint := by
  obtain ⟨head, args, arrays, nulls⟩ := i
  rw [inArray, fingerprint_eq, fingerprint_eq, Fingerprint.layers_succ_left]
  exact congrArg Fingerprint.mk (add_left_comm _ _ _)

open scoped UInt64.CommRing in
theorem fingerprint_orNull (i : Imprint) :
    i.orNull.fingerprint = Fingerprint.ofNullable i.fingerprint := by
  obtain ⟨head, args, arrays, nulls⟩ := i
  rw [orNull, fingerprint_eq, fingerprint_eq, Fingerprint.layers_succ_right]
  exact congrArg Fingerprint.mk (add_left_comm _ _ _)

end Imprint

/-- The fingerprint of a type is made from its imprint and from nothing else. -/
theorem HostType.fingerprint_eq (t : HostType) : t.fingerprint = t.imprint.fingerprint := by
  have hcore (head : Head) (args : List Imprint) : Imprint.fingerprint ⟨head, args, 0, 0⟩ =
      Fingerprint.mix head.fingerprint.bits (args.map Imprint.fingerprint) := by
    rw [Imprint.fingerprint_eq, Fingerprint.layers_zero, UInt64.add_zero]
  induction t with
  | mk shape args nullable ih =>
    have hargs : fingerprints args = (imprints args).map Imprint.fingerprint := by
      rw [fingerprints_eq_map, imprints_eq_map, List.map_map]
      exact List.map_congr_left ih
    have hbase : fingerprint ⟨shape, args, false⟩ = (imprint ⟨shape, args, false⟩).fingerprint := by
      cases shape with
      | primitive p => exact (hcore (.name ("System." ++ p.hostName)) []).symm
      | param i => exact (hcore (.param i) []).symm
      | named q =>
        refine Eq.trans ?_ (hcore _ _).symm
        rw [← hargs]
        -- without arguments nothing is mixed in
        cases args with
        | nil => rfl
        | cons => rfl
      | array =>
        refine Eq.trans ?_ (Imprint.fingerprint_inArray _).symm
        show Fingerprint.ofArray ((fingerprints args).headD _) = _
        rw [hargs]
        cases args with
        | nil => exact congrArg Fingerprint.ofArray (hcore .nothing []).symm
        | cons => rfl
    cases nullable with
    | false => exact hbase
    | true =>
      have hnull : fingerprint ⟨shape, args, true⟩ =
          .ofNullable (fingerprint ⟨shape, args, false⟩) := by
        cases shape <;> rfl
      rw [hnull, hbase]
      exact (Imprint.fingerprint_orNull _).symm

/-! ## 2. Imprints that differ in one place -/

/-- Two names, or two parameters among the 256 that a type can have. -/
def Head.Alike : Head → Head → Prop
  | .name _, .name _ => True
  | .param i, .param j => i < 256 ∧ j < 256
  | _, _ => False

namespace Imprint

/-- Two imprints that differ in one place at most, at any depth: in what stands innermost, in the layers
around it, of which there are less than `2 ^ 31` of each kind, or inside one argument. -/
inductive Near : Imprint → Imprint → Prop
  | refl (i : Imprint) : Near i i
  | head {h h' : Head} (args : List Imprint) (arrays nulls : Nat) (alike : h.Alike h') :
      Near ⟨h, args, arrays, nulls⟩ ⟨h', args, arrays, nulls⟩
  | layers (head : Head) (args : List Imprint) {arrays nulls arrays' nulls' : Nat}
      (harrays : arrays < 2 ^ 31) (harrays' : arrays' < 2 ^ 31) (hnulls : nulls < 2 ^ 31)
      (hnulls' : nulls' < 2 ^ 31) :
      Near ⟨head, args, arrays, nulls⟩ ⟨head, args, arrays', nulls'⟩
  | arg (head : Head) (before after : List Imprint) (arrays nulls : Nat) {i j : Imprint}
      (near : Near i j) :
      Near ⟨head, before ++ i :: after, arrays, nulls⟩ ⟨head, before ++ j :: after, arrays, nulls⟩

/-- The same for lists of imprints. -/
inductive NearLists : List Imprint → List Imprint → Prop
  | refl (is : List Imprint) : NearLists is is
  | place (before after : List Imprint) {i j : Imprint} (near : Near i j) :
      NearLists (before ++ i :: after) (before ++ j :: after)

end Imprint

section

variable {known : Set String}

/-- Where different names have different digests, so have heads of one kind. -/
theorem Head.fingerprint_inj {h h' : Head} (hknown : Set.InjOn Digest.ofText known)
    (hh : ∀ name ∈ h.names, name ∈ known) (hh' : ∀ name ∈ h'.names, name ∈ known)
    (halike : h.Alike h') (he : h.fingerprint = h'.fingerprint) : h = h' := by
  cases h with
  | name text =>
    cases h' with
    | name text' =>
      have hdigest : Digest.ofText text = Digest.ofText text' := by
        simpa [fingerprint, Fingerprint.ofName] using he
      exact congrArg Head.name (hknown (hh text (.head _)) (hh' text' (.head _)) hdigest)
    | param | nothing => cases halike
  | param i =>
    cases h' with
    | param j =>
      have hmark : Fingerprint.positionMark i = Fingerprint.positionMark j := by
        simpa [fingerprint, Fingerprint.ofGenericParam] using he
      exact congrArg Head.param (Fingerprint.positionMark_inj halike.1 halike.2 hmark)
    | name | nothing => cases halike
  | nothing => cases halike

namespace Imprint

variable {i j : Imprint}

theorem mem_names_arg {head : Head} {before after : List Imprint} {arrays nulls : Nat} {name : String}
    (h : name ∈ i.names) : name ∈ Imprint.names ⟨head, before ++ i :: after, arrays, nulls⟩ := by
  rw [Imprint.names, namesList_eq_flatMap]
  exact List.mem_append_right _ (List.mem_flatMap_of_mem (by simp) h)

/-- Imprints that differ in one place have different fingerprints. -/
theorem Near.fingerprint_inj (hnear : Near i j) (hknown : Set.InjOn Digest.ofText known)
    (hi : ∀ name ∈ i.names, name ∈ known) (hj : ∀ name ∈ j.names, name ∈ known)
    (he : i.fingerprint = j.fingerprint) : i = j := by
  induction hnear with
  | refl => rfl
  | @head h h' args arrays nulls alike =>
    simp only [fingerprint_eq, Fingerprint.mk.injEq, UInt64.add_left_inj, Fingerprint.bits_inj,
      Fingerprint.mix_inj] at he
    have hh : ∀ name ∈ h.names, name ∈ known := fun name hm => hi name (List.mem_append_left _ hm)
    have hh' : ∀ name ∈ h'.names, name ∈ known := fun name hm => hj name (List.mem_append_left _ hm)
    rw [Head.fingerprint_inj hknown hh hh' alike he]
  | layers head args harrays harrays' hnulls hnulls' =>
    simp only [fingerprint_eq, Fingerprint.mk.injEq, UInt64.add_right_inj] at he
    obtain ⟨rfl, rfl⟩ := Fingerprint.layers_inj harrays harrays' hnulls hnulls' he
    rfl
  | @arg head before after arrays nulls i j near ih =>
    simp only [fingerprint_eq, List.map_append, List.map_cons, Fingerprint.mk.injEq,
      UInt64.add_left_inj, Fingerprint.bits_inj, Fingerprint.mix_part_inj] at he
    rw [ih (fun name hm => hi name (mem_names_arg hm)) (fun name hm => hj name (mem_names_arg hm)) he]

/-- So do the signatures of one method name whose lists of parameters differ in one place. -/
theorem NearLists.ofSignature_inj {is js : List Imprint} (hnear : NearLists is js)
    (hknown : Set.InjOn Digest.ofText known) (his : ∀ i ∈ is, ∀ name ∈ i.names, name ∈ known)
    (hjs : ∀ j ∈ js, ∀ name ∈ j.names, name ∈ known) {method : String}
    (he : Fingerprint.ofSignature method (is.map fingerprint) =
      Fingerprint.ofSignature method (js.map fingerprint)) : is = js := by
  cases hnear with
  | refl => rfl
  | @place before after i j near =>
    simp only [Fingerprint.ofSignature, List.map_append, List.map_cons,
      Fingerprint.mix_part_inj] at he
    rw [near.fingerprint_inj hknown (his i (by simp)) (hjs j (by simp)) he]

end Imprint

end

end FatArrow
