import FatArrow.Proofs.Registry.Remade
import FatArrow.Tree.Fold
import FatArrow.Typing.Conversion

/-!
# Values written as terms

The term that folding writes for a value means the value, wherever it is evaluated, as long as the
value inhabits the type that it is written for.
-/

namespace FatArrow

/-! ## 1. Inhabited types -/

/-- The type stands for another one, with null or without, or for values of any type. -/
def HostType.Covers (type own : HostType) : Prop :=
  type.underlying = own ∨ type.underlying = .object ∨ ∃ i, type.shape = .param i

/-- Values of a type.  Ticks are words of 64 bits, and the items of a sequence inhabit the type of
its items. -/
inductive Value.Inhabits (o : TypeOrder) : Value → HostType → Prop where
  | null {type : HostType} (admits : type.admitsNull = true) : Inhabits o .null type
  | primitive {v : Value} {type : HostType} {p : Primitive} (own : v.primitive? = some p)
      (covers : type.Covers (.primitive p)) : Inhabits o v type
  | dateTime {t : DateTime} {type : HostType} (covers : type.Covers .dateTime)
      (ticks : FitsWord t.ticks) : Inhabits o (.dateTime t) type
  | dateTimeOffset {t : DateTimeOffset} {type : HostType} (covers : type.Covers .dateTimeOffset)
      (ticks : FitsWord t.ticks) (offset : FitsWord t.offset.ticks) :
      Inhabits o (.dateTimeOffset t) type
  | timeSpan {t : TimeSpan} {type : HostType} (covers : type.Covers .timeSpan) :
      Inhabits o (.timeSpan t) type
  | guid {g : Guid} {type : HostType} (covers : type.Covers .guid) : Inhabits o (.guid g) type
  | array {items : List Value} {type : HostType}
      (unlike : ∀ p, type.primitive? = some p → p = .object)
      (inside : ∀ element, o.itemType? type.underlying = some element →
        ∀ i ∈ items, Inhabits o i element) : Inhabits o (.array items) type
  | object {own type : HostType} {id : Nat}
      (unlike : ∀ p, type.primitive? = some p → p = .object) : Inhabits o (.object own id) type

/-- Only the primitive types and `Object` cover a primitive type. -/
theorem HostType.Covers.primitive? {type own : HostType} (h : type.Covers own) {p : Primitive}
    (hp : type.primitive? = some p) : own.primitive? = some p ∨ p = .object := by
  rcases h with rfl | h | ⟨i, hi⟩
  · exact .inl hp
  · right
    have hobject : type.underlying.primitive? = some p := hp
    rw [h] at hobject
    cases hobject
    rfl
  · simp [HostType.primitive?, hi] at hp

/-- A value of a number type or of the characters is of that very type. -/
theorem Value.Inhabits.primitive_of_isNumeric {o : TypeOrder} {v : Value} {type : HostType}
    (h : v.Inhabits o type) (hn : v.isNull = false) {p : Primitive} (hp : type.primitive? = some p)
    (hs : (p.isNumeric || p == .char) = true) : v.primitive? = some p := by
  have hne : p ≠ .object := by
    rintro rfl
    cases hs
  cases h with
  | null => cases hn
  | primitive own covers =>
    rcases covers.primitive? hp with he | he
    · cases he
      exact own
    · exact absurd he hne
  | dateTime covers | dateTimeOffset covers | timeSpan covers | guid covers =>
    rcases covers.primitive? hp with he | he
    · cases he
    · exact absurd he hne
  | array unlike | object unlike => exact absurd (unlike p hp) hne

/-- A cast to a type that the value inhabits changes nothing. -/
theorem Value.Inhabits.castTo {o : TypeOrder} {v : Value} {type : HostType}
    (h : v.Inhabits o type) : v.castTo type = .ok v := by
  unfold Value.castTo
  by_cases hn : v.isNull
  · cases v <;> first | rfl | cases hn
  · simp only [hn, Bool.false_eq_true, ↓reduceIte]
    split
    next p hp =>
      split
      next hs =>
        have hown := h.primitive_of_isNumeric (by simpa using hn) hp hs
        simp [needConvert, convert?, hown]
      next => rfl
    next => rfl

/-! ## 2. Terms that mean values -/

/-- A term that means a value everywhere, of a type that is nullable or not. -/
structure Term.Denotes (t : Term) (v : Value) (nullable : Bool) : Prop where
  means : ∀ env, t.eval env = return v
  typed : t.type?.any (·.nullable) = nullable

namespace Term

theorem denotes_const (v : Value) (type : HostType) :
    (Term.const v type).Denotes v type.nullable :=
  ⟨fun _ => rfl, rfl⟩

theorem evalAll_of_denotes {env : Bindings} {vs : List Value} {f : Value → Term} {nullable : Bool}
    (h : ∀ v ∈ vs, (f v).Denotes v nullable) : evalAll env (vs.map f) = return vs := by
  induction vs with
  | nil => rfl
  | cons v vs ih =>
    obtain ⟨first, rest⟩ := List.forall_mem_cons.mp h
    rw [List.map_cons, evalAll, first.means env, pure_bind, ih rest, pure_bind]

end Term

namespace Host

variable {o : TypeOrder} {type own : HostType} {v : Value} {plain : Term}

theorem denotes_lifted (hv : v.Inhabits o type) (hp : plain.Denotes v false) :
    (lifted type v plain).Denotes v type.nullable := by
  unfold lifted
  by_cases hn : type.nullable
  · simp only [hn, ↓reduceIte]
    split
    next hnull =>
      cases v with
      | null => exact ⟨fun _ => rfl, hn⟩
      | _ => cases hnull
    next =>
      refine ⟨fun env => ?_, hn⟩
      rw [Term.eval, hp.means env, pure_bind, hv.castTo]
      rfl
  · simp only [hn, Bool.false_eq_true, ↓reduceIte]
    exact hp

variable {r : Registry} {around : Surroundings}

/-- A value that is made anew by a constructor, or kept as it is where its type is not known. -/
theorem denotes_construct (h : r.Holds (Standard.modules around)) (type : HostType)
    (args : List Term) {vs : List Value} (hc : type.Covers own)
    (hr : r.Remakes own (args.filterMap (·.type?)) vs v)
    (hargs : ∀ env, Term.evalAll env args = return vs) :
    (r.host.construct type.underlying args v).Denotes v false ∧
      (r.host.construct type.underlying args v).type? = some type.underlying := by
  have hkept : r.constructor? type.underlying (args.filterMap (·.type?)) = none →
      (r.host.construct type.underlying args v).Denotes v false ∧
        (r.host.construct type.underlying args v).type? = some type.underlying := by
    intro hnone
    rw [construct, show r.host.constructor? = r.constructor? from rfl, hnone]
    exact ⟨Term.denotes_const v type.underlying, rfl⟩
  rcases hc with hown | hobject | ⟨i, hi⟩
  · obtain ⟨c, hfound, hdeclaring, hinvoke⟩ := hr
    rw [construct, show r.host.constructor? = r.constructor? from rfl, hown, hfound]
    have htype : c.declaring.nullable = false := by
      rw [hdeclaring, ← hown]
      rfl
    refine ⟨⟨fun env => ?_, htype⟩, congrArg some hdeclaring⟩
    rw [Term.eval, hargs env, pure_bind, hinvoke]
  · refine hkept ?_
    rw [hobject]
    exact Registry.constructor?_object h _
  · exact hkept (Registry.constructor?_param (t := type.underlying) hi rfl _)

theorem wrapItems_eq_map (h : Host) (type : HostType) (vs : List Value) :
    h.wrapItems type vs = vs.map (h.wrap type) := by
  induction vs with
  | nil => rfl
  | cons v vs ih => simp [wrapItems, wrap, ih]

/-- The term that is written for a value of a type means the value. -/
theorem denotes_wrap (h : r.Holds (Standard.modules around)) (hv : v.Inhabits r.order type) :
    (r.host.wrap type v).Denotes v type.nullable := by
  have hticks : ∀ (n : Int) env, Term.evalAll env [ticksTerm n] = return [.int64 n] :=
    fun _ _ => rfl
  have hlifted : ∀ {v type}, v.Inhabits r.order type →
      (r.host.wrapPlain type.underlying v).Denotes v false →
      (r.host.wrap type v).Denotes v type.nullable := fun hv hp => denotes_lifted hv hp
  induction hv with
  | null admits => exact hlifted (.null admits) (Term.denotes_const _ _)
  | @primitive v type p own covers =>
    refine hlifted (.primitive own covers) ?_
    cases v <;> first | exact Term.denotes_const _ _ | cases own
  | timeSpan covers => exact hlifted (.timeSpan covers) (Term.denotes_const _ _)
  | object unlike => exact hlifted (.object unlike) (Term.denotes_const _ _)
  | @dateTime t type covers ticks =>
    refine hlifted (.dateTime covers ticks) ?_
    exact (denotes_construct h type [ticksTerm t.ticks] covers
      (Registry.remakes_dateTime h ticks) (hticks t.ticks)).1
  | @dateTimeOffset t type covers ticks offset =>
    refine hlifted (.dateTimeOffset covers ticks offset) ?_
    -- the distance is made first, then the point of time from it
    obtain ⟨hoffset, htype⟩ := denotes_construct h .timeSpan [ticksTerm t.offset.ticks]
      (.inl rfl) (Registry.remakes_timeSpan h offset) (hticks t.offset.ticks)
    have hspan : HostType.timeSpan.underlying = .timeSpan := rfl
    rw [hspan] at hoffset htype
    simp only [wrapPlain]
    generalize r.host.construct .timeSpan [ticksTerm t.offset.ticks] (.timeSpan t.offset) = made
      at hoffset htype ⊢
    have htypes : [ticksTerm t.ticks, made].filterMap (·.type?) = [.int64, .timeSpan] := by
      simp [htype, ticksTerm, Term.type?]
    refine (denotes_construct h type _ covers (htypes ▸ Registry.remakes_dateTimeOffset h ticks) ?_).1
    intro env
    rw [Term.evalAll, Term.evalAll, hoffset.means env]
    rfl
  | @guid g type covers =>
    refine hlifted (.guid covers) ?_
    exact (denotes_construct h type [.const (.string g.text) .string] covers
      (Registry.remakes_guid h g) fun _ => rfl).1
  | @array items type unlike inside ih =>
    refine hlifted (.array unlike inside) ?_
    rw [wrapPlain]
    split
    next element he =>
      have hitem : r.order.itemType? type.underlying = some element := by
        split at he
        · cases he
        · exact he
      refine ⟨fun env => ?_, rfl⟩
      rw [wrapItems_eq_map, Term.newArray, Term.eval,
        Term.evalAll_of_denotes fun v hv => ih element hitem v hv]
      rfl
    next => exact Term.denotes_const _ _

end Host

end FatArrow
