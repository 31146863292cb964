import Mathlib.Data.List.Forall2
import Pickling.Proofs.Shape.Order
/-!
When two built-in values are equal. Main statement: the order of a shape calls two values equal
exactly if they are the same but for the spelling of paths (`BuiltIn.order_eq_eq_iff`).
-/
namespace Pickling

open Std

variable {α : Type}

theorem compareLex_eq_eq_iff {order : α → α → Ordering} {xs ys : List α} :
    xs.compareLex order ys = .eq ↔ List.Forall₂ (fun a b => order a b = .eq) xs ys := by
  induction xs generalizing ys with
  | nil =>
      cases ys with
      | nil => exact iff_of_true rfl .nil
      | cons y ys => exact iff_of_false nofun nofun
  | cons x xs ih =>
      cases ys with
      | nil => exact iff_of_false nofun nofun
      | cons y ys =>
          rw [List.compareLex_cons_cons, Ordering.then_eq_eq, ih, List.forall₂_cons]

theorem compareLex_eq_eq_iff_eq {order : α → α → Ordering} (h : LawfulEqCmp order)
    {xs ys : List α} : xs.compareLex order ys = .eq ↔ xs = ys := by
  have hequal (a b : α) : order a b = .eq ↔ a = b := LawfulEqCmp.compare_eq_iff_eq
  simp only [compareLex_eq_eq_iff, hequal, List.forall₂_eq_eq_eq]

theorem Number.order_eq_eq_iff {kind : Number} {a b : kind.Bits} :
    kind.order a b = .eq ↔ a = b := by
  rw [order]
  split_ifs
  · exact Std.compare_eq_iff_eq.trans BitVec.toInt_inj
  · exact Std.compare_eq_iff_eq.trans BitVec.toNat_inj

namespace Path

theorem Component.order_eq_eq_iff {a b : Component} : a.order b = .eq ↔ a = b := by
  rw [Component.order_eq, Ordering.then_eq_eq, Std.compare_eq_iff_eq,
    compareLex_eq_eq_iff_eq inferInstance]
  constructor
  · rintro ⟨hrank, hspelled⟩
    cases a <;> cases b <;> simp_all [rank, spelled]
  · rintro rfl
    exact ⟨rfl, rfl⟩

theorem order_eq_eq_iff {a b : Path} : a.order b = .eq ↔ a.components = b.components := by
  rw [order, compareLex_eq_eq_iff]
  simp only [Component.order_eq_eq_iff, List.forall₂_eq_eq_eq]

end Path

namespace BuiltIn

/-- Equal values. Paths are equal by their components, and what has parts is equal part by part. -/
def Same : (shape : BuiltIn) → shape.Value → shape.Value → Prop
  | .bool | .number _ | .char | .text | .wide => fun a b => a = b
  | .path => fun a b => Path.components a = Path.components b
  | .sequence _ item => fun a b => List.Forall₂ (Same item) (Array.toList a) (Array.toList b)
  | .set _ item => List.Forall₂ (Same item)
  | .map _ key content =>
    List.Forall₂ fun a b => Same key a.1 b.1 ∧ Same content a.2 b.2
  | .single member => Same member
  | .cons member rest => fun a b => Same member a.1 b.1 ∧ Same rest a.2 b.2
  | .boxed content => Same content
  | .record name => name.elim

theorem order_eq_eq_iff (shape : BuiltIn) (a b : shape.Value) :
    shape.order a b = .eq ↔ shape.Same a b := by
  induction shape with
  | bool =>
      have hbits : ∀ a b : Bool, a.toNat = b.toNat ↔ a = b := by decide
      exact Std.compare_eq_iff_eq.trans (hbits a b)
  | number kind => exact Number.order_eq_eq_iff
  | char => exact Std.compare_eq_iff_eq.trans Char.toNat_inj
  | text =>
      refine (compareLex_eq_eq_iff_eq inferInstance).trans ?_
      rw [Array.toList_inj, ← ByteArray.ext_iff]
      exact String.toByteArray_inj
  | wide =>
      refine (compareLex_eq_eq_iff_eq inferInstance).trans ?_
      exact (Wide.mk.injEq _ _).to_iff.symm
  | path => exact Path.order_eq_eq_iff
  | sequence storage item ih =>
      refine compareLex_eq_eq_iff.trans ?_
      simp only [ih]
      rfl
  | set arrangement item ih =>
      refine compareLex_eq_eq_iff.trans ?_
      simp only [ih]
      rfl
  | map arrangement key content hkey hcontent =>
      refine compareLex_eq_eq_iff.trans ?_
      simp only [Ordering.then_eq_eq, hkey, hcontent]
      rfl
  | single member ih => exact ih a b
  | cons member rest hmember hrest =>
      refine Ordering.then_eq_eq.trans ?_
      rw [hmember, hrest]
      rfl
  | boxed content ih => exact ih a b
  | record name => exact name.elim

end BuiltIn

end Pickling
