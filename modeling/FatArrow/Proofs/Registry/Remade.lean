import FatArrow.Proofs.Meaning.Agreement
import FatArrow.Proofs.Registry.Install
import FatArrow.Proofs.Value.GuidText

/-!
# Values made anew

The standard modules have constructors that make a point of time, a length of time and an identifier
anew from the numbers and texts that are kept of them.
-/

namespace FatArrow

/-! ## 1. Words of 64 bits -/

/-- A number of ticks that a word of 64 bits denotes. -/
def FitsWord (n : Int) : Prop := IntegerKind.int64.least ≤ n ∧ n ≤ IntegerKind.int64.greatest

theorem FitsWord.bounds {n : Int} (h : FitsWord n) :
    -9223372036854775808 ≤ n ∧ n < 9223372036854775808 := by
  have hleast : IntegerKind.int64.least = -9223372036854775808 := by decide
  have hgreatest : IntegerKind.int64.greatest = 9223372036854775807 := by decide
  rw [FitsWord, hleast, hgreatest] at h
  omega

theorem Value.int64?_int64 {n : Int} (h : FitsWord n) :
    (Value.int64 n).int64? = some (Int64.ofInt n) := by
  have hdenote : IntegerKind.denote .int64 (IntegerKind.wrap .int64 n) = n :=
    BitVec.toInt_ofInt_eq_self (by decide) h.bounds.1 h.bounds.2
  show some (Int64.ofInt (IntegerKind.denote .int64 (IntegerKind.wrap .int64 n))) = _
  rw [hdenote]

theorem Call.argInt_int64 {n : Int} (h : FitsWord n) (rest : List Value) :
    Call.argInt ⟨none, .int64 n :: rest, []⟩ 0 = .ok (Int64.ofInt n) := by
  simp [Call.argInt, Call.argAs, Call.arg, Value.int64?_int64 h, bind, Except.bind]

theorem toInt_ofInt {n : Int} (h : FitsWord n) : (Int64.ofInt n).toInt = n :=
  Int64.toInt_ofInt_of_le h.bounds.1 h.bounds.2

/-! ## 2. Entries -/

namespace Registry

variable {r : Registry} {around : Surroundings}

theorem Holds.entry? {modules : List HostModule} (h : r.Holds modules) {types : List TypeDecl}
    {d : TypeDecl} {type : HostType} (hm : HostModule.ofNamespace "System" types ∈ modules)
    (hd : d ∈ types) (hkey : type.key? = some (QualifiedName.fingerprint ⟨["System"], d.name⟩)) :
    r.entry? type = some (d.entry ⟨["System"], ""⟩ "System") := by
  have hpath : (HostModule.ofNamespace "System" types).path = ["System"] := by
    show (dottedPieces "System").filter (· != "") = ["System"]
    decide
  have hentry := h _ hm _ (HostModule.entry_mem hd)
  rw [hpath] at hentry
  rw [Registry.entry?, hkey]
  exact hentry

/-! ## 3. Constructors -/

/-- The constructor of a type for arguments of given types makes a value of some arguments. -/
def Remakes (r : Registry) (type : HostType) (types : List HostType) (args : List Value)
    (v : Value) : Prop :=
  ∃ c, r.constructor? type types = some c ∧ c.declaring = type ∧ c.invoke args = return v

theorem remakes_dateTime (h : r.Holds (Standard.modules around)) {t : DateTime}
    (ht : FitsWord t.ticks) : r.Remakes .dateTime [.int64] [.int64 t.ticks] (.dateTime t) := by
  have hkey : HostType.dateTime.key? = some (QualifiedName.fingerprint ⟨["System"], "DateTime"⟩) :=
    rfl
  have hm : Standard.time around ∈ Standard.modules around := by simp [Standard.modules]
  rw [Remakes, constructor?, h.entry? hm (d := Standard.dateTime around) (by simp) hkey]
  refine ⟨_, rfl, rfl, ?_⟩
  simp only [Constructor.invoke, Call.argInt_int64 ht, Eval.lift_ok, pure_bind, toInt_ofInt ht]

theorem remakes_timeSpan (h : r.Holds (Standard.modules around)) {t : TimeSpan}
    (ht : FitsWord t.ticks) : r.Remakes .timeSpan [.int64] [.int64 t.ticks] (.timeSpan t) := by
  have hkey : HostType.timeSpan.key? = some (QualifiedName.fingerprint ⟨["System"], "TimeSpan"⟩) :=
    rfl
  have hm : Standard.time around ∈ Standard.modules around := by simp [Standard.modules]
  rw [Remakes, constructor?, h.entry? hm (d := Standard.timeSpan) (by simp) hkey]
  refine ⟨_, rfl, rfl, ?_⟩
  simp only [Constructor.invoke, Call.argInt_int64 ht, Eval.lift_ok, pure_bind, toInt_ofInt ht]

theorem remakes_dateTimeOffset (h : r.Holds (Standard.modules around)) {t : DateTimeOffset}
    (ht : FitsWord t.ticks) :
    r.Remakes .dateTimeOffset [.int64, .timeSpan] [.int64 t.ticks, .timeSpan t.offset]
      (.dateTimeOffset t) := by
  have hkey : HostType.dateTimeOffset.key? =
      some (QualifiedName.fingerprint ⟨["System"], "DateTimeOffset"⟩) := rfl
  have hm : Standard.time around ∈ Standard.modules around := by simp [Standard.modules]
  have hoffset : Call.argAs ⟨none, [.int64 t.ticks, .timeSpan t.offset], []⟩ 1
      Standard.asTimeSpan? "TimeSpan" = .ok t.offset := rfl
  rw [Remakes, constructor?, h.entry? hm (d := Standard.dateTimeOffset around) (by simp) hkey]
  refine ⟨_, rfl, rfl, ?_⟩
  simp only [Constructor.invoke, Call.argInt_int64 ht, hoffset, Eval.lift_ok, pure_bind,
    toInt_ofInt ht]

theorem remakes_guid (h : r.Holds (Standard.modules around)) (g : Guid) :
    r.Remakes .guid [.string] [.string g.text] (.guid g) := by
  have hkey : HostType.guid.key? = some (QualifiedName.fingerprint ⟨["System"], "Guid"⟩) := rfl
  have hm : Standard.identifiers around ∈ Standard.modules around := by simp [Standard.modules]
  have htext : Call.argText ⟨none, [.string g.text], []⟩ 0 = .ok g.text := rfl
  rw [Remakes, constructor?, h.entry? hm (d := Standard.guid around) (by simp) hkey]
  refine ⟨_, rfl, rfl, ?_⟩
  simp only [Constructor.invoke, Standard.guidNative, htext, Guid.readGuid_text, Eval.lift_ok,
    pure_bind]

/-- Objects of no particular type cannot be made. -/
theorem constructor?_object (h : r.Holds (Standard.modules around)) (types : List HostType) :
    r.constructor? .object types = none := by
  have hkey : HostType.object.key? = some (QualifiedName.fingerprint ⟨["System"], "Object"⟩) := rfl
  have hm : Standard.primitives ∈ Standard.modules around := by simp [Standard.modules]
  have hd : Standard.primitive .object ∈
      (Primitive.all.filter fun p => p != .void && p != .string).map Standard.primitive :=
    List.mem_map_of_mem (by decide)
  rw [constructor?, h.entry? hm (List.mem_append_left _ hd) hkey]
  rfl

/-- Nor can values of a type that is not known. -/
theorem constructor?_param {t : HostType} {i : Nat} (hs : t.shape = .param i)
    (hn : t.nullable = false) (types : List HostType) : r.constructor? t types = none := by
  have hkey : t.key? = none := by simp [HostType.key?, hs, hn]
  rw [constructor?, entry?, hkey]
  rfl

end Registry

end FatArrow
