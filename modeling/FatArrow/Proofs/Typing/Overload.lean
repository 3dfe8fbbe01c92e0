import FatArrow.Registry.Lineage
import FatArrow.Typing.Overload
import Mathlib.Data.List.Forall2

/-!
# What a chosen method or constructor takes

A method is chosen for the types of the arguments of a call, and a constructor likewise.  Whichever
is chosen has as many parameters as there are arguments, and each parameter can be given its
argument.
-/

namespace FatArrow

namespace TypeOrder

theorem assignable_refl (o : TypeOrder) (t : HostType) : o.assignable t t = true := by
  simp [assignable, fits]

/-- Every parameter can be given the argument at its place. -/
def Takes (o : TypeOrder) (params args : List HostType) : Prop :=
  List.Forall₂ (fun p a => o.assignable p a = true) params args

theorem takes_refl (o : TypeOrder) (types : List HostType) : o.Takes types types := by
  induction types with
  | nil => exact .nil
  | cons t ts ih => exact .cons (o.assignable_refl t) ih

theorem takes_of_all_zip {o : TypeOrder} {params args : List HostType}
    (hl : params.length = args.length)
    (h : (params.zip args).all (fun (p, a) => o.assignable p a) = true) : o.Takes params args := by
  rw [Takes, List.forall₂_iff_zip]
  exact ⟨hl, fun hm => List.all_eq_true.mp h _ hm⟩

end TypeOrder

namespace CallSite

theorem select?_takes {o : TypeOrder} {candidates : List Method} {site : CallSite} {m : Method}
    (h : select? o candidates site = some m) : o.Takes m.params site.args := by
  unfold select? at h
  extract_lets bound at h
  have hlength : ∀ n ∈ bound, n.params.length = site.args.length := by
    intro n hn
    simpa using (List.mem_filter.mp hn).2
  split at h
  next hfind =>
    cases h
    have hsame := List.find?_some hfind
    rw [eq_of_beq hsame]
    exact o.takes_refl _
  next =>
    split at h
    next hfilter =>
      cases h
      have hm : m ∈ bound.filter (fun n => accepts o n.params site.args) := by
        rw [hfilter]
        exact List.mem_singleton_self m
      obtain ⟨hbound, haccepts⟩ := List.mem_filter.mp hm
      exact TypeOrder.takes_of_all_zip (hlength m hbound) haccepts
    next => cases h

theorem selectSequenceOp?_takes {h : Host} {name : String} {receiver item : HostType}
    {site : CallSite} {m : Method} (hs : selectSequenceOp? h name receiver item site = some m) :
    h.toTypeOrder.Takes m.params (receiver :: site.args) := by
  simp only [selectSequenceOp?, Option.bind_eq_bind, Option.bind_eq_some_iff] at hs
  obtain ⟨holder, _, hs⟩ := hs
  exact select?_takes hs

end CallSite

namespace Registry

theorem constructor?_takes {r : Registry} {t : HostType} {args : List HostType} {c : Constructor}
    (h : r.constructor? t args = some c) : r.order.Takes c.params args := by
  unfold constructor? at h
  obtain ⟨e, _, h⟩ := Option.bind_eq_some_iff.mp h
  extract_lets candidates at h
  have hlength : ∀ d ∈ candidates, d.params.length = args.length := by
    intro d hd
    obtain ⟨d', hd', rfl⟩ := List.mem_map.mp hd
    simpa using (List.mem_filter.mp hd').2
  rcases Option.or_eq_some_iff.mp h with hsame | ⟨_, hfits⟩
  · have hs := List.find?_some hsame
    rw [eq_of_beq hs]
    exact r.order.takes_refl _
  · have hf := List.find?_some hfits
    exact TypeOrder.takes_of_all_zip (hlength c (List.mem_of_find?_eq_some hfits)) hf

end Registry

end FatArrow
