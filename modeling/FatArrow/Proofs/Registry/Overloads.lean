import FatArrow.Proofs.Registry.Ancestors
import FatArrow.Proofs.Registry.Sound
import Mathlib.Data.List.Nodup

/-!
# Overloads that are listed

An entry keeps methods apart by their name, their parameters and whether they are static.  The methods
that are listed for a type are told apart by their parameters alone, and only once these are bound: of
what no nearer type hides, the first of those with the same parameters is listed.
-/

namespace FatArrow

/-- The overloads of a name that an entry declares, as they are for the type as which it was reached. -/
def Ancestor.declared (a : Ancestor) (name : String) : List Method :=
  (a.entry.overloads name).map a.bindMethod

namespace Method

/-- A method that stands in the place of another one of its name, where a nearer type declares it. -/
def hides (n m : Method) : Bool := n.isStatic == m.isStatic && n.params == m.params

/-- The methods found so far with one more, unless its parameters are found already. -/
def addNew (found : List Method) (m : Method) : List Method :=
  if found.any (·.params == m.params) then found else found ++ [m]

variable {m n : Method} {ms found : List Method}

/-! ## 1. The first of each parameters -/

theorem any_addNew : (addNew found n).any (·.params == m.params) = true ↔
    found.any (·.params == m.params) = true ∨ n.params = m.params := by
  unfold addNew
  split
  next hfound =>
    -- what is left out has the parameters of one that is there
    refine ⟨.inl, fun h => h.elim id fun hsame => ?_⟩
    rwa [← hsame]
  next => simp

theorem any_foldl_addNew (ms : List Method) : (ms.foldl addNew found).any (·.params == m.params) =
    true ↔ found.any (·.params == m.params) = true ∨ ∃ n ∈ ms, n.params = m.params := by
  induction ms generalizing found with
  | nil => simp
  | cons n ms ih =>
    rw [List.foldl_cons, ih, any_addNew, or_assoc]
    simp only [List.mem_cons, exists_eq_or_imp]

/-- What is found already adds nothing. -/
theorem foldl_addNew_filter {keep : Method → Bool}
    (h : ∀ m ∈ ms, keep m = false → found.any (·.params == m.params) = true) :
    (ms.filter keep).foldl addNew found = ms.foldl addNew found := by
  induction ms generalizing found with
  | nil => rfl
  | cons m ms ih =>
    have hrest : ∀ n ∈ ms, keep n = false → (addNew found m).any (·.params == n.params) = true :=
      fun n hn hkeep => any_addNew.mpr (.inl (h n (List.mem_cons_of_mem _ hn) hkeep))
    rw [List.foldl_cons, ← ih hrest]
    cases hkeep : keep m with
    | true => rw [List.filter_cons_of_pos hkeep, List.foldl_cons]
    | false =>
      rw [List.filter_cons_of_neg (by rw [hkeep]; exact Bool.false_ne_true), addNew,
        if_pos (h m List.mem_cons_self hkeep)]

theorem foldl_addNew (ms found : List Method) : ms.foldl addNew found =
    found ++ (ms.filter fun m => !found.any (·.params == m.params)).eraseDupsBy
      fun m n => m.params == n.params := by
  induction ms generalizing found with
  | nil => simp [List.eraseDupsBy, List.eraseDupsBy.loop]
  | cons m ms ih =>
    rw [List.foldl_cons, ih, addNew]
    split
    next hfound => rw [List.filter_cons_of_neg (by rw [hfound]; decide)]
    next hnew =>
      rw [List.filter_cons_of_pos (by simpa using hnew), List.eraseDupsBy_cons, List.filter_filter,
        List.append_assoc, List.singleton_append]
      -- the rest is compared with what was found and with the method itself
      have hrest (n : Method) : (!(found ++ [m]).any (·.params == n.params)) =
          (decide ((n.params == m.params) = false) && !found.any (·.params == n.params)) := by
        rw [List.any_append, Bool.not_or, Bool.and_comm, List.any_cons, List.any_nil,
          Bool.or_false, Bool.decide_eq_false, BEq.comm]
      simp only [hrest]

theorem nodup_foldl_addNew (hd : (found.map (·.params)).Nodup) :
    ((ms.foldl addNew found).map (·.params)).Nodup := by
  induction ms generalizing found with
  | nil => exact hd
  | cons m ms ih =>
    apply ih
    unfold addNew
    split
    next => exact hd
    next hnew =>
      rw [List.map_append, List.nodup_append]
      refine ⟨hd, List.nodup_singleton _, ?_⟩
      rintro _ hin _ hm rfl
      obtain ⟨n, hn, hsame⟩ := List.mem_map.mp hin
      rw [List.map_singleton, List.mem_singleton, ← hsame] at hm
      exact hnew (List.any_eq_true.mpr ⟨n, hn, beq_iff_eq.mpr hm⟩)

theorem foldl_addNew_of_nodup (hd : ((found ++ ms).map (·.params)).Nodup) :
    ms.foldl addNew found = found ++ ms := by
  induction ms generalizing found with
  | nil => rw [List.append_nil, List.foldl_nil]
  | cons m ms ih =>
    have hnew : found.any (·.params == m.params) = false := by
      rw [List.any_eq_false]
      intro n hn hsame
      rw [List.map_append, List.nodup_append] at hd
      exact hd.2.2 _ (List.mem_map_of_mem hn) _ (List.mem_map_of_mem List.mem_cons_self)
        (beq_iff_eq.mp hsame)
    rw [List.append_cons] at hd ⊢
    rw [List.foldl_cons, addNew, hnew, ← ih hd]
    rfl

end Method

namespace Registry

variable {r : Registry} {t : HostType} {e : TypeEntry} {name : String}

/-! ## 2. What no nearer type hides -/

/-- The overloads that the ancestors in a lineage declare, without those that a nearer one hides;
`nearer` are those of the ancestors before them. -/
def unhidden (name : String) (nearer : List Method) : List Ancestor → List Method
  | [] => []
  | a :: rest => (a.declared name).filter (fun m => !nearer.any (·.hides m)) ++
      unhidden name (nearer ++ a.declared name) rest

/-- The overloads of a type and its bases, without those of a base that a nearer type hides. -/
def visible (r : Registry) (t : HostType) (name : String) : List Method :=
  unhidden name [] (r.lineage t)

theorem foldl_unhidden (as : List Ancestor) {nearer found : List Method}
    (h : ∀ n ∈ nearer, found.any (·.params == n.params) = true) :
    (unhidden name nearer as).foldl Method.addNew found =
      (as.flatMap (·.declared name)).foldl Method.addNew found := by
  induction as generalizing nearer found with
  | nil => rfl
  | cons a as ih =>
    -- what is hidden has the parameters of what hides it
    have hhidden : ∀ m ∈ a.declared name, (!nearer.any (·.hides m)) = false →
        found.any (·.params == m.params) = true := by
      intro m _ hany
      rw [Bool.not_eq_false', List.any_eq_true] at hany
      obtain ⟨n, hn, hhides⟩ := hany
      rw [Method.hides, Bool.and_eq_true, beq_iff_eq, beq_iff_eq] at hhides
      rw [← hhides.2]
      exact h n hn
    rw [unhidden, List.flatMap_cons, List.foldl_append, List.foldl_append,
      Method.foldl_addNew_filter hhidden]
    apply ih
    intro n hn
    rw [Method.any_foldl_addNew]
    rcases List.mem_append.mp hn with hn | hn
    · exact .inl (h n hn)
    · exact .inr ⟨n, hn, rfl⟩

theorem methods_eq_foldl_visible (r : Registry) (t : HostType) (name : String) :
    r.methods t name = (r.visible t name).foldl Method.addNew [] :=
  (foldl_unhidden (r.lineage t) (List.forall_mem_nil _)).symm

theorem methods_eq (r : Registry) (t : HostType) (name : String) : r.methods t name =
    (r.visible t name).eraseDupsBy fun m n => m.params == n.params := by
  rw [methods_eq_foldl_visible, Method.foldl_addNew, List.nil_append]
  exact congrArg _ (List.filter_eq_self.mpr fun _ _ => rfl)

/-- What is visible is listed where its parameters tell it apart, and only there. -/
theorem methods_eq_visible_iff :
    r.methods t name = r.visible t name ↔ ((r.visible t name).map (·.params)).Nodup := by
  rw [methods_eq_foldl_visible]
  constructor
  · intro hall
    rw [← hall]
    exact Method.nodup_foldl_addNew List.nodup_nil
  · intro hd
    exact Method.foldl_addNew_of_nodup hd

theorem not_hides_of_mem_unhidden {as : List Ancestor} {nearer : List Method} {m n : Method}
    (hm : m ∈ unhidden name nearer as) (hn : n ∈ nearer) : n.hides m = false := by
  induction as generalizing nearer with
  | nil => cases hm
  | cons a as ih =>
    rcases List.mem_append.mp hm with hm | hm
    · have hnot := (List.mem_filter.mp hm).2
      rw [Bool.not_eq_true', List.any_eq_false] at hnot
      exact Bool.eq_false_iff.mpr (hnot n hn)
    · exact ih hm (List.mem_append_left _ hn)

theorem entry_mem_types {a : Ancestor} (ha : a ∈ r.lineage t) : ∃ p ∈ r.types, p.2 = a.entry := by
  obtain ⟨p, hp, hentry, -⟩ := mem_lineageFrom ha
  exact ⟨p, hp, hentry⟩

/-- The overloads of the entry itself are visible, all of them and before the others. -/
theorem declared_prefix_visible (he : r.entry? t = some e) (name : String) :
    (⟨e, t⟩ : Ancestor).declared name <+: r.visible t name := by
  have hall : ((⟨e, t⟩ : Ancestor).declared name).filter
      (fun m => !([] : List Method).any (·.hides m)) = (⟨e, t⟩ : Ancestor).declared name :=
    List.filter_eq_self.mpr fun _ _ => rfl
  rw [visible, lineage_eq he, unhidden, hall]
  exact List.prefix_append _ _

/-! ## 3. What an entry keeps apart -/

/-- No two methods of an entry have the same name and parameters and are both static or neither. -/
def TellsApart (ms : List Method) : Prop :=
  ms.Pairwise fun n m => n.name = m.name → n.isStatic = m.isStatic → n.params ≠ m.params

/-- No method clashes with an earlier one exactly where no two in the list clash. -/
theorem repeated?_eq_none_iff {earlier ms : List Method} : repeated? earlier ms = none ↔
    (∀ m ∈ ms, ∀ n ∈ earlier, clashes m n = false) ∧ ms.Pairwise fun n m => clashes m n = false := by
  induction ms generalizing earlier with
  | nil => exact ⟨fun _ => ⟨nofun, .nil⟩, fun _ => rfl⟩
  | cons m ms ih =>
    rw [repeated?, List.forall_mem_cons, List.pairwise_cons]
    split
    next hold =>
      refine ⟨nofun, fun h => ?_⟩
      obtain ⟨n, hn, hclash⟩ := List.any_eq_true.mp hold
      cases hclash.symm.trans (h.1.1 n hn)
    next hnew =>
      rw [Bool.not_eq_true, List.any_eq_false] at hnew
      have hself : ∀ n ∈ earlier, clashes m n = false :=
        fun n hn => Bool.eq_false_iff.mpr (hnew n hn)
      rw [ih]
      simp only [List.forall_mem_append, List.forall_mem_singleton]
      exact ⟨fun ⟨hall, hpairs⟩ =>
          ⟨⟨hself, fun n hn => (hall n hn).1⟩, fun n hn => (hall n hn).2, hpairs⟩,
        fun ⟨⟨_, hearlier⟩, hm, hpairs⟩ => ⟨fun n hn => ⟨hearlier n hn, hm n hn⟩, hpairs⟩⟩

theorem tellsApart_of_repeated? {ms : List Method} (h : repeated? [] ms = none) : TellsApart ms := by
  refine (repeated?_eq_none_iff.mp h).2.imp fun {n m} hclash hname hstatic hparams => ?_
  rw [clashes, hname, hstatic, Method.signature, Method.signature, hname, hparams] at hclash
  simp at hclash

theorem kept_tellsApart : Kept fun r _ => ∀ p ∈ r.types, TellsApart p.2.methods where
  explicit h _ := h
  register {r r' _ e} h hr := by
    have hself : repeated? [] e.methods = none := by
      unfold register at hr
      split at hr
      next => cases hr
      next =>
        split at hr
        next => cases hr
        next hnone => exact hnone
    obtain ⟨keys, names, -, -, rfl⟩ := register_cases hr
    intro p hp
    rcases mem_put.mp hp with ⟨hp, -⟩ | rfl
    · exact h p hp
    · exact tellsApart_of_repeated? hself

/-- Overloads of one generic entry, whose parameters differ before those of the entry are bound. -/
def Merges (r : Registry) (t : HostType) (name : String) (n m : Method) : Prop :=
  ∃ a ∈ r.lineage t, a.entry.isGeneric = true ∧ ∃ x ∈ a.entry.overloads name,
    ∃ y ∈ a.entry.overloads name, n = a.bindMethod x ∧ m = a.bindMethod y ∧ x.params ≠ y.params

theorem declared_pairwise {a : Ancestor} (ha : a ∈ r.lineage t) (h : TellsApart a.entry.methods) :
    (a.declared name).Pairwise fun n m =>
      n.params = m.params → n.isStatic ≠ m.isStatic ∨ r.Merges t name n m := by
  unfold Ancestor.declared
  rw [List.pairwise_map, TypeEntry.overloads]
  refine (h.filter _).imp_of_mem fun {x y} hx hy hapart hparams => ?_
  rw [a.isStatic_bindMethod, a.isStatic_bindMethod]
  by_cases hstatic : x.isStatic = y.isStatic
  · have hname : x.name = y.name := by
      rw [beq_iff_eq.mp (List.mem_filter.mp hx).2, beq_iff_eq.mp (List.mem_filter.mp hy).2]
    have hne := hapart hname hstatic
    refine .inr ⟨a, ha, ?_, x, hx, y, hy, rfl, rfl, hne⟩
    -- an entry without parameters binds nothing
    by_contra hplain
    rw [Bool.not_eq_true] at hplain
    rw [Ancestor.bindMethod_plain hplain, Ancestor.bindMethod_plain hplain] at hparams
    exact hne hparams
  · exact .inl hstatic

theorem unhidden_pairwise {as : List Ancestor} (has : as ⊆ r.lineage t)
    (h : ∀ a ∈ as, TellsApart a.entry.methods) (nearer : List Method) :
    (unhidden name nearer as).Pairwise fun n m =>
      n.params = m.params → n.isStatic ≠ m.isStatic ∨ r.Merges t name n m := by
  induction as generalizing nearer with
  | nil => exact .nil
  | cons a as ih =>
    obtain ⟨ha, has⟩ := List.cons_subset.mp has
    obtain ⟨hself, hrest⟩ := List.forall_mem_cons.mp h
    refine List.pairwise_append.mpr ⟨(declared_pairwise ha hself).filter _, ih has hrest _,
      fun n hn m hm hparams => .inl fun hstatic => ?_⟩
    -- the second one would be hidden
    have hnot := not_hides_of_mem_unhidden hm (List.mem_append_right _ (List.mem_filter.mp hn).1)
    rw [Method.hides, hstatic, hparams, beq_self_eq_true, beq_self_eq_true] at hnot
    cases hnot

/-! ## 4. Lineages step by step -/

/-- The lineages of the types in a queue, if no more than `fuel` types are looked at. -/
def lineageWithin (fuel : Nat) (rest : List (Fingerprint × TypeEntry)) (queue : List HostType) :
    Option (List Ancestor) :=
  match fuel, queue with
  | _, [] => some []
  | 0, _ :: _ => none
  | fuel + 1, t :: queue =>
    match rest.find? (describes t) with
    | none => lineageWithin fuel rest queue
    | some (_, e) =>
      (lineageWithin fuel (rest.eraseP (describes t)) (queue ++ e.bases.map (e.bind t.actuals))).map
        (⟨e, t⟩ :: ·)

theorem lineageFrom_of_within {fuel : Nat} {rest : List (Fingerprint × TypeEntry)}
    {queue : List HostType} {as : List Ancestor} (h : lineageWithin fuel rest queue = some as) :
    lineageFrom rest queue = as := by
  fun_induction lineageWithin fuel rest queue generalizing as with
  | case1 => rw [lineageFrom, Option.some.inj h]
  | case2 => cases h
  | case3 rest fuel t queue hnone ih => rw [lineageFrom_of_none hnone, ih h]
  | case4 rest fuel t queue key e hsome ih =>
    obtain ⟨before, hbefore, rfl⟩ := Option.map_eq_some_iff.mp h
    rw [lineageFrom_of_some hsome, ih hbefore]

/-- What is found within some steps holds of the lineage. -/
theorem lineage_of_within {p : List Ancestor → Prop} [DecidablePred p] (fuel : Nat)
    (h : (lineageWithin fuel r.types [t]).any (p ·) = true) : p (r.lineage t) := by
  obtain ⟨as, has, hp⟩ := Option.any_eq_true .. |>.mp h
  rw [lineage, lineageFrom_of_within has]
  exact of_decide_eq_true hp

/-! ## 5. Lists of methods -/

/-- The methods that are listed for a type, whatever modules are installed: of the overloads that are
visible, among them all of the entry itself, the first of each parameters.  So they are all listed
where no two have the same parameters.  Where two have, one of them is static and the other is not, or
the arguments of a generic type made them the same. -/
theorem installed_methods (modules : List HostModule)
    (he : Registry.entry? (installed modules) t = some e) (name : String) :
    let r := installed modules
    let visible := r.visible t name
    (⟨e, t⟩ : Ancestor).declared name <+: visible ∧
      r.methods t name = (visible.eraseDupsBy fun m n => m.params == n.params) ∧
      (r.methods t name = visible ↔ (visible.map (·.params)).Nodup) ∧
      visible.Pairwise fun n m =>
        n.params = m.params → n.isStatic ≠ m.isStatic ∨ r.Merges t name n m := by
  intro r visible
  refine ⟨declared_prefix_visible he name, methods_eq r t name, methods_eq_visible_iff,
    unhidden_pairwise (List.Subset.refl _) (fun a ha => ?_) []⟩
  obtain ⟨_, -, happart⟩ := kept_tellsApart.installed nofun modules
  obtain ⟨p, hp, hentry⟩ := entry_mem_types ha
  rw [← hentry]
  exact happart p hp

/-- A type declares one of the overloads of its base again, and the static one stays. -/
theorem installed_methods_louder :
    let say (param : HostType) : Method := .onReceiver "Say" [param] .string
    let base := { TypeDecl.ofName "Echo" with
      methods := [say .int32, { say .string with isStatic := true }] }
    let louder := { TypeDecl.ofName "Louder" with
      bases := [.named "App.Echo"], methods := [say .int32] }
    let r := installed [.ofNamespace "App" [base, louder]]
    let t : HostType := .named "App.Louder"
    r.methods t "Say" = r.visible t "Say" ∧
      (r.methods t "Say").map (fun m => (m.declaring, m.isStatic)) =
        [(some (.named "App.Louder"), false), (some (.named "App.Echo"), true)] := by
  intro say base louder r t
  obtain ⟨e, he⟩ : ∃ e, r.entry? t = some e := Option.isSome_iff_exists.mp (by decide +kernel)
  obtain ⟨-, -, hall, -⟩ := installed_methods [.ofNamespace "App" [base, louder]] he "Say"
  have hapart : ((r.visible t "Say").map (·.params)).Nodup :=
    lineage_of_within (p := fun as => ((unhidden "Say" [] as).map (·.params)).Nodup) 4
      (by decide +kernel)
  have hlisted := lineage_of_within (r := r) (t := t)
    (p := fun as => ((as.flatMap (·.declared "Say")).foldl Method.addNew []).map
      (fun m => (m.declaring, m.isStatic)) =
        [(some (.named "App.Louder"), false), (some (.named "App.Echo"), true)]) 4
    (by decide +kernel)
  exact ⟨hall.mpr hapart, hlisted⟩

/-- An entry keeps a static overload apart from one on a receiver, and a parameter of its type apart
from a type that can be bound to it, and no type hides what is static in a base by what is not.  But of
each two the first one only is listed. -/
theorem installed_methods_lost :
    let say : Method := .onReceiver "Say" [.string] .string
    let put (param : HostType) : Method := .onReceiver "Put" [param] .boolean
    let echo := { TypeDecl.ofName "Echo" with methods := [say, { say with isStatic := true }] }
    let box := { TypeDecl.ofName "Box`1" with arity := 1, methods := [put (.param 0), put .int32] }
    let base := { TypeDecl.ofName "Base" with methods := [{ say with isStatic := true }] }
    let louder := { TypeDecl.ofName "Louder" with bases := [.named "App.Base"], methods := [say] }
    let modules := [.ofNamespace "App" [echo, box, base, louder]]
    let r := installed modules
    let shown (ms : List Method) := ms.map fun m => (m.isStatic, m.params)
    (empty.installAll modules).isOk = true ∧
      ∀ case ∈ [(.named "App.Echo", "Say", [(false, [.string]), (true, [.string])]),
          (.applied (.ofDotted "App.Box`1") [.int32], "Put", [(false, [.int32]), (false, [.int32])]),
          (.named "App.Louder", "Say", [(false, [.string]), (true, [.string])])],
        shown (r.visible case.1 case.2.1) = case.2.2 ∧
          shown (r.methods case.1 case.2.1) = case.2.2.take 1 := by
  intro say put echo box base louder modules r shown
  refine ⟨by decide +kernel, fun case hcase => ?_⟩
  apply lineage_of_within (p := fun as => shown (unhidden case.2.1 [] as) = case.2.2 ∧
    shown ((as.flatMap (·.declared case.2.1)).foldl Method.addNew []) = case.2.2.take 1) 4
  revert case hcase
  decide +kernel

end Registry

end FatArrow
