import FatArrow.Proofs.Registry.Layers
import FatArrow.Proofs.Registry.Overloads
import FatArrow.Proofs.Types.Imprint

/-!
# Methods that are declared twice

An entry is refused if it declares two methods of one name, both static or neither, that have the same
signature, which is mixed from the fingerprints of the parameters.  So every repetition is found.  Not
everything that is found is one: arrays of nullable types and nullable arrays have one fingerprint, and
lists of parameters that differ in two places can have one signature by chance.
-/

namespace FatArrow

/-! ## 1. Types that are known by their imprints -/

instance (q : QualifiedName) : Decidable q.Undotted :=
  inferInstanceAs (Decidable (∀ piece ∈ q.path ++ [q.name], '.' ∉ piece.toList))

/-- A type in which no array admits null, arrays have one element type, parameters and primitive types
have no arguments, and names are spelled in one way and are not those of primitive types. -/
inductive HostType.Plain : HostType → Prop
  | primitive (p : Primitive) (nullable : Bool) : Plain ⟨.primitive p, [], nullable⟩
  | param (position : Nat) (nullable : Bool) : Plain ⟨.param position, [], nullable⟩
  | named {q : QualifiedName} {args : List HostType} (hq : q.Undotted)
      (hp : ∀ p : Primitive, q.text ≠ "System." ++ p.hostName) (hargs : ∀ a ∈ args, Plain a)
      (nullable : Bool) : Plain ⟨.named q, args, nullable⟩
  | array {element : HostType} (h : Plain element) : Plain (.arrayOf element)

theorem Primitive.hostName_inj {p q : Primitive} (h : p.hostName = q.hostName) : p = q := by
  have hall : ∀ p ∈ all, ∀ q ∈ all, p.hostName = q.hostName → p = q := by decide +kernel
  exact hall p p.mem_all q q.mem_all h

theorem eq_of_toNat_eq {m n : Bool} (h : m.toNat = n.toNat) : m = n := by
  cases m <;> cases n <;> first | rfl | cases h

/-- Lists whose items are known by their images are known by the images of their items. -/
theorem eq_of_map_eq {α β : Type} {f : α → β} {as bs : List α}
    (hf : ∀ a ∈ as, ∀ b ∈ bs, f a = f b → a = b) (h : as.map f = bs.map f) : as = bs := by
  induction as generalizing bs with
  | nil => exact (List.map_eq_nil_iff.mp h.symm).symm
  | cons a as ih =>
    cases bs with
    | nil => cases h
    | cons b bs =>
      obtain ⟨hhead, htail⟩ := List.cons.inj h
      rw [hf a List.mem_cons_self b List.mem_cons_self hhead]
      rw [ih (fun x hx y hy => hf x (List.mem_cons_of_mem _ hx) y (List.mem_cons_of_mem _ hy)) htail]

namespace HostType

/-- A plain type is known by its imprint. -/
theorem Plain.imprint_inj {s t : HostType} (hs : s.Plain) (ht : t.Plain)
    (h : s.imprint = t.imprint) : s = t := by
  induction hs generalizing t with
  | primitive p nullable =>
    cases ht with
    | primitive q =>
      rw [imprint_primitive, imprint_primitive, Imprint.mk.injEq, Head.name.injEq,
        String.append_right_inj] at h
      rw [Primitive.hostName_inj h.1, eq_of_toNat_eq h.2.2.2]
    | named _ hp =>
      rw [imprint_primitive, imprint_named, Imprint.mk.injEq, Head.name.injEq] at h
      exact absurd h.1.symm (hp p)
    | param | array => simp [Imprint.inArray] at h
  | param position nullable =>
    cases ht with
    | param =>
      rw [imprint_param, imprint_param, Imprint.mk.injEq, Head.param.injEq] at h
      rw [h.1, eq_of_toNat_eq h.2.2.2]
    | primitive | named | array => simp [Imprint.inArray] at h
  | named hq hp hargs nullable ih =>
    cases ht with
    | primitive p =>
      rw [imprint_named, imprint_primitive, Imprint.mk.injEq, Head.name.injEq] at h
      exact absurd h.1 (hp p)
    | named hq' _ hargs' =>
      rw [imprint_named, imprint_named, Imprint.mk.injEq, Head.name.injEq] at h
      obtain ⟨hname, himprints, -, hnull⟩ := h
      rw [hq.eq hq' hname, eq_of_toNat_eq hnull,
        eq_of_map_eq (fun a ha b hb => ih a ha (hargs' b hb)) himprints]
    | param | array => simp [Imprint.inArray] at h
  | array _ ih =>
    cases ht with
    | array ht => rw [ih ht (Imprint.inArray_inj h)]
    | primitive | param | named => simp [Imprint.inArray] at h

end HostType

namespace Registry

variable {r : Registry} {e : TypeEntry}

/-! ## 2. Registration -/

theorem exists_baseKeys_iff {bases : List HostType} :
    (∃ keys, r.baseKeys bases = .ok keys) ↔ ∀ base ∈ bases, (r.entry? base).isSome := by
  refine ⟨fun ⟨_, h⟩ => (baseKeys_isSome h).1, fun h => ?_⟩
  induction bases with
  | nil => exact ⟨[], rfl⟩
  | cons base bases ih =>
    obtain ⟨hbase, hrest⟩ := List.forall_mem_cons.mp h
    obtain ⟨keys, hkeys⟩ := ih hrest
    obtain ⟨_, hentry⟩ := Option.isSome_iff_exists.mp hbase
    obtain ⟨key, hkey, hget⟩ := Option.bind_eq_some_iff.mp hentry
    refine ⟨key :: keys, ?_⟩
    simp [baseKeys, hkey, hkeys, hget, Except.map]

theorem exists_clash_iff {ms : List Method} :
    (∃ a b, [a, b].Sublist ms ∧ clashes b a = true) ↔ repeated? [] ms ≠ none := by
  rw [Ne, repeated?_eq_none_iff, List.pairwise_iff_forall_sublist]
  simp only [List.not_mem_nil, false_implies, implies_true, true_and, not_forall,
    Bool.not_eq_false, exists_prop]

theorem index_register_ne {index : NameIndex} {path : List String} {name type method : String}
    {key : Fingerprint} : index.register path name key ≠ .error (.duplicateMethod type method) := by
  unfold NameIndex.register
  dsimp only
  split
  · nofun
  · split <;> nofun

/-- An entry is refused for a repeated method exactly where its bases are known and two of its methods
clash. -/
theorem register_eq_duplicateMethod_iff :
    (∃ method, r.register e = .error (.duplicateMethod e.name.text method)) ↔
      (∀ base ∈ e.bases, (r.entry? base).isSome) ∧
        ∃ a b, [a, b].Sublist e.methods ∧ clashes b a = true := by
  rw [← exists_baseKeys_iff, exists_clash_iff]
  unfold register
  cases r.baseKeys e.bases with
  | error base => exact ⟨fun ⟨_, h⟩ => (by cases h), fun ⟨⟨_, h⟩, _⟩ => (by cases h)⟩
  | ok keys =>
    dsimp only
    cases repeated? [] e.methods with
    | some m => exact ⟨fun _ => ⟨⟨keys, rfl⟩, nofun⟩, fun _ => ⟨m.name, rfl⟩⟩
    | none =>
      refine ⟨fun ⟨method, h⟩ => ?_, fun ⟨_, h⟩ => absurd rfl h⟩
      dsimp only at h
      split at h
      next failure hindex =>
        cases h
        exact absurd hindex index_register_ne
      next => cases h

end Registry

/-! ## 3. Parameters -/

namespace Method

variable {a b : Method} {known : Set String}

/-- The imprints of the parameters. -/
def imprints (m : Method) : List Imprint := m.params.map HostType.imprint

theorem signature_eq (m : Method) :
    m.signature = Fingerprint.ofSignature m.name (m.imprints.map Imprint.fingerprint) := by
  rw [signature, imprints, List.map_map]
  exact congrArg _ (List.map_congr_left fun t _ => t.fingerprint_eq)

/-- Methods of one name have the same signature where their parameters have the same imprints. -/
theorem signature_congr (hname : a.name = b.name) (h : a.imprints = b.imprints) :
    a.signature = b.signature := by
  rw [signature_eq, signature_eq, hname, h]

/-- They have it only there, if the imprints differ in one place at most. -/
theorem signature_eq_iff (hname : a.name = b.name) (hnear : Imprint.NearLists a.imprints b.imprints)
    (hknown : Set.InjOn Digest.ofText known)
    (ha : ∀ i ∈ a.imprints, ∀ name ∈ i.names, name ∈ known)
    (hb : ∀ i ∈ b.imprints, ∀ name ∈ i.names, name ∈ known) :
    a.signature = b.signature ↔ a.imprints = b.imprints := by
  refine ⟨fun h => ?_, signature_congr hname⟩
  rw [signature_eq, signature_eq, hname] at h
  exact hnear.ofSignature_inj hknown ha hb h

theorem imprints_eq_iff (ha : ∀ p ∈ a.params, p.Plain) (hb : ∀ p ∈ b.params, p.Plain) :
    a.imprints = b.imprints ↔ a.params = b.params :=
  ⟨eq_of_map_eq fun p hp q hq => (ha p hp).imprint_inj (hb q hq),
    congrArg (List.map HostType.imprint)⟩

end Method

/-- The names in the types of the parameters that the methods of an entry have. -/
def TypeEntry.paramNames (e : TypeEntry) : Set String :=
  {name | ∃ m ∈ e.methods, ∃ i ∈ m.imprints, name ∈ i.names}

namespace Registry

/-! ## 4. Repetitions -/

/-- An entry is refused for a repeated method exactly where its bases are known and two of its methods
of one name, both static or neither, have the same signature.  They have it where their parameters have
the same imprints, and only there if the imprints differ in one place at most; plain parameters have the
same imprints only if they are the same.  So an entry is refused for true repetitions only, if all its
overloads have plain parameters that differ in one place at most. -/
theorem register_repeated (r : Registry) (e : TypeEntry)
    (hknown : Set.InjOn Digest.ofText e.paramNames) :
    let refused := ∃ method, r.register e = .error (.duplicateMethod e.name.text method)
    let based := ∀ base ∈ e.bases, (r.entry? base).isSome
    (refused ↔ based ∧ ∃ a b, [a, b].Sublist e.methods ∧ a.name = b.name ∧
        a.isStatic = b.isStatic ∧ a.signature = b.signature) ∧
      (∀ a ∈ e.methods, ∀ b ∈ e.methods, a.name = b.name →
        (a.imprints = b.imprints → a.signature = b.signature) ∧
          (Imprint.NearLists a.imprints b.imprints →
            (a.signature = b.signature ↔ a.imprints = b.imprints)) ∧
          ((∀ p ∈ a.params, p.Plain) → (∀ p ∈ b.params, p.Plain) →
            (a.imprints = b.imprints ↔ a.params = b.params))) ∧
      ((∀ m ∈ e.methods, ∀ p ∈ m.params, p.Plain) →
        (∀ a b, [a, b].Sublist e.methods → a.name = b.name → a.isStatic = b.isStatic →
          Imprint.NearLists a.imprints b.imprints) →
        (refused ↔ based ∧ ∃ a b, [a, b].Sublist e.methods ∧ a.name = b.name ∧
          a.isStatic = b.isStatic ∧ a.params = b.params)) := by
  intro refused based
  have hnames : ∀ m ∈ e.methods, ∀ i ∈ m.imprints, ∀ name ∈ i.names, name ∈ e.paramNames :=
    fun m hm i hi name hname => ⟨m, hm, i, hi, hname⟩
  have hrefused : refused ↔ based ∧ ∃ a b, [a, b].Sublist e.methods ∧ a.name = b.name ∧
      a.isStatic = b.isStatic ∧ a.signature = b.signature := by
    refine register_eq_duplicateMethod_iff.trans (and_congr_right fun _ => exists₂_congr fun a b =>
      and_congr_right fun _ => ?_)
    rw [clashes, Bool.and_eq_true, Bool.and_eq_true, beq_iff_eq, beq_iff_eq, beq_iff_eq, and_assoc]
    exact and_congr eq_comm (and_congr eq_comm eq_comm)
  refine ⟨hrefused, fun a ha b hb hname => ⟨Method.signature_congr hname, fun hnear =>
    Method.signature_eq_iff hname hnear hknown (hnames a ha) (hnames b hb), Method.imprints_eq_iff⟩,
    fun hplain hnear => hrefused.trans (and_congr_right fun _ => exists₂_congr fun a b => ?_)⟩
  -- what clashes is now the same
  refine and_congr_right fun hsub => and_congr_right fun hname => and_congr_right fun hstatic => ?_
  have ha : a ∈ e.methods := hsub.subset (by simp)
  have hb : b ∈ e.methods := hsub.subset (by simp)
  rw [Method.signature_eq_iff hname (hnear a b hsub hname hstatic) hknown (hnames a ha) (hnames b hb),
    Method.imprints_eq_iff (hplain a ha) (hplain b hb)]

/-- Lists of integers are told from lists of texts. -/
theorem register_repeated_lists :
    let list (item : HostType) : HostType :=
      .applied (.ofDotted "System.Collections.Generic.List`1") [item]
    let say (item : HostType) : Method := .onReceiver "Say" [list item] .string
    let e := { TypeDecl.ofName "Echo" with methods := [say .int32, say .string] }.entry
      ⟨["App"], ""⟩ "App"
    Set.InjOn Digest.ofText e.paramNames ∧ (∀ m ∈ e.methods, ∀ p ∈ m.params, p.Plain) ∧
      (∀ a b, [a, b].Sublist e.methods → a.name = b.name → a.isStatic = b.isStatic →
        Imprint.NearLists a.imprints b.imprints) ∧
      ¬ ∃ method, empty.register e = .error (.duplicateMethod e.name.text method) := by
  intro list say e
  have hknown : Set.InjOn Digest.ofText e.paramNames := by
    have hall : ∀ m ∈ e.methods, ∀ i ∈ m.imprints, ∀ name ∈ i.names,
        name ∈ ["System.Collections.Generic.List`1", "System.Int32", "System.String"] := by
      decide +kernel
    have happart : ∀ x ∈ ["System.Collections.Generic.List`1", "System.Int32", "System.String"],
        ∀ y ∈ ["System.Collections.Generic.List`1", "System.Int32", "System.String"],
        Digest.ofText x = Digest.ofText y → x = y := by
      decide +kernel
    rintro x ⟨m, hm, i, hi, hx⟩ y ⟨n, hn, j, hj, hy⟩
    exact happart x (hall m hm i hi x hx) y (hall n hn j hj y hy)
  have hlist : ∀ p : Primitive, (list (.primitive p)).Plain := by
    intro p
    have hnames : ∀ q ∈ Primitive.all, "System." ++ q.hostName ≠
        (QualifiedName.ofDotted "System.Collections.Generic.List`1").text := by
      decide +kernel
    exact .named (by decide +kernel) (fun q => (hnames q q.mem_all).symm)
      (List.forall_mem_singleton.mpr (.primitive p false)) false
  have hplain : ∀ m ∈ e.methods, ∀ p ∈ m.params, p.Plain :=
    List.forall_mem_cons.mpr ⟨List.forall_mem_singleton.mpr (hlist (.integer .int32)),
      List.forall_mem_singleton.mpr (List.forall_mem_singleton.mpr (hlist .string))⟩
  have hboth : ∀ a b, [a, b].Sublist e.methods → e.methods = [a, b] :=
    fun a b hsub => (hsub.eq_of_length rfl).symm
  have hnear : ∀ a b, [a, b].Sublist e.methods → a.name = b.name → a.isStatic = b.isStatic →
      Imprint.NearLists a.imprints b.imprints := by
    intro a b hsub _ _
    cases hboth a b hsub
    exact .place [] [] (.arg _ [] [] 0 0 (.head [] 0 0 trivial))
  refine ⟨hknown, hplain, hnear, ?_⟩
  rw [(register_repeated empty e hknown).2.2 hplain hnear]
  rintro ⟨-, a, b, hsub, -, -, hparams⟩
  cases hboth a b hsub
  cases hparams

/-- Different parameters are refused, too: arrays of nullable integers and nullable arrays of integers,
and two lists of ordinary types that differ in two places and have the same signature by chance. -/
theorem register_refuses_different :
    let say (params : List HostType) : Method := .onReceiver "Say" params .string
    let nullable (t : HostType) : HostType := { t with nullable := true }
    let chance := ["App.T31097", "App.T31493", "App.T40918", "App.T101632"]
    (chance.map Digest.ofText).Nodup ∧
      ∀ case ∈ [([.arrayOf (nullable .int32)], [nullable (.arrayOf .int32)]),
          ((chance.take 2).map .named, (chance.drop 2).map .named)],
        let e := { TypeDecl.ofName "Echo" with methods := [say case.1, say case.2] }.entry
          ⟨["App"], ""⟩ "App"
        case.1 ≠ case.2 ∧
          (empty.register e).map (fun _ => ()) = .error (.duplicateMethod "App.Echo" "Say") := by
  decide +kernel

end Registry

end FatArrow
