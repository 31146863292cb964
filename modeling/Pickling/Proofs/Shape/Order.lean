import Pickling.Shape.Basic
/-!
The orders of built-in values, and the collections that are kept by them. Main statements: the order
of every shape is turned around with its arguments and goes on from one value to the next
(`BuiltIn.ordered`), and an element that is distinct from those of a collection and belongs behind
them is put there (`Arrangement.insert_distinct`).
-/
namespace Pickling

open Std

variable {α β : Type}

theorem oriented_comap {order : β → β → Ordering} (h : OrientedCmp order) (f : α → β) :
    OrientedCmp fun a b => order (f a) (f b) := ⟨h.eq_swap⟩

theorem ordered_comap {order : β → β → Ordering} (h : TransCmp order) (f : α → β) :
    TransCmp fun a b => order (f a) (f b) :=
  { oriented_comap h.toOrientedCmp f with isLE_trans := h.isLE_trans }

theorem ordered_then {first second : α → α → Ordering} (hfirst : TransCmp first)
    (hsecond : TransCmp second) : TransCmp fun a b => (first a b).then (second a b) :=
  inferInstanceAs (TransCmp (compareLex first second))

theorem ordered_compareLex {order : α → α → Ordering} (h : TransCmp order) :
    TransCmp (List.compareLex order) := inferInstance

theorem Number.ordered (kind : Number) : TransCmp kind.order := by
  by_cases h : kind.isSigned
  · have horder : kind.order = fun a b => compare a.toInt b.toInt := by
      funext a b
      rw [order, if_pos h]
    rw [horder]
    exact ordered_comap inferInstance BitVec.toInt
  · have horder : kind.order = fun a b => compare a.toNat b.toNat := by
      funext a b
      rw [order, if_neg h]
    rw [horder]
    exact ordered_comap inferInstance BitVec.toNat

namespace Path.Component

/-- The bytes of a name, and none for the other steps. -/
def spelled : Component → List UInt8
  | .name bytes => bytes
  | _ => []

theorem order_eq (a b : Component) :
    a.order b = (compare a.rank b.rank).then (a.spelled.compareLex compare b.spelled) := by
  cases a with
  | name => cases b <;> rfl
  | root | current | parent => cases b <;> rfl

theorem ordered : TransCmp Component.order := by
  have horder : Component.order = fun a b =>
      (compare a.rank b.rank).then (a.spelled.compareLex compare b.spelled) := by
    funext a b
    exact order_eq a b
  rw [horder]
  exact ordered_then (ordered_comap inferInstance rank)
    (ordered_comap (ordered_compareLex inferInstance) spelled)

end Path.Component

/-- Whoever compares two values the other way around gets the opposite answer, and what comes before a
value comes before all that it comes before. -/
theorem BuiltIn.ordered (shape : BuiltIn) : TransCmp shape.order := by
  induction shape with
  | bool => exact ordered_comap inferInstance Bool.toNat
  | number kind => exact kind.ordered
  | char => exact ordered_comap inferInstance Char.toNat
  | text =>
      exact ordered_comap (ordered_compareLex inferInstance) fun value : String =>
        value.toUTF8.data.toList
  | wide => exact ordered_comap (ordered_compareLex inferInstance) Wide.units
  | path => exact ordered_comap (ordered_compareLex Path.Component.ordered) Path.components
  | sequence _ item ih => exact ordered_comap (ordered_compareLex ih) Array.toList
  | set _ item ih => exact ordered_compareLex ih
  | map _ key value hkey hvalue =>
      exact ordered_compareLex
        (ordered_then (ordered_comap hkey Prod.fst) (ordered_comap hvalue Prod.snd))
  | single member ih => exact ih
  | cons member rest hmember hrest =>
      exact ordered_then (ordered_comap hmember Prod.fst) (ordered_comap hrest Prod.snd)
  | boxed content ih => exact ih
  | record name => exact name.elim

theorem BuiltIn.oriented (shape : BuiltIn) : OrientedCmp shape.order := shape.ordered.toOrientedCmp

namespace Arrangement

variable {arrangement : Arrangement} {order : α → α → Ordering} {merge : α → α → α}

/-- The lists that are collections: no two elements are equal, and sorted ones ascend. -/
def Distinct (arrangement : Arrangement) (order : α → α → Ordering) (xs : List α) : Prop :=
  match arrangement with
  | .sorted => xs.Pairwise fun a b => order a b = .lt
  | .hashed => xs.Pairwise fun a b => order a b ≠ .eq

theorem insert_behind {x y : α} {rest : List α}
    (h : order x y = .gt ∨ arrangement = .hashed ∧ order x y ≠ .eq) :
    arrangement.insert order merge x (y :: rest) = y :: arrangement.insert order merge x rest := by
  rw [insert.eq_def]
  rcases h with h | ⟨rfl, h⟩
  · simp only [h]
  · cases hxy : order x y with
    | eq => exact absurd hxy h
    | lt | gt => simp only [hxy]

theorem insert_distinct (horder : OrientedCmp order) {xs : List α} {x : α}
    (h : arrangement.Distinct order (xs ++ [x])) :
    arrangement.insert order merge x xs = xs ++ [x] := by
  induction xs with
  | nil => rfl
  | cons y rest ih =>
      cases arrangement with
      | sorted =>
          obtain ⟨hfirst, hrest⟩ := List.pairwise_cons.1 h
          have hbefore : order y x = .lt := hfirst x (by simp)
          have hafter : order x y = .gt := by rw [horder.eq_swap, hbefore, Ordering.swap_lt]
          rw [insert_behind (.inl hafter), ih hrest]
          rfl
      | hashed =>
          obtain ⟨hfirst, hrest⟩ := List.pairwise_cons.1 h
          have hbefore : order y x ≠ .eq := hfirst x (by simp)
          have hafter : order x y ≠ .eq := by
            rw [horder.eq_swap]
            exact fun heq => hbefore (Ordering.swap_eq_eq.1 heq)
          rw [insert_behind (.inr ⟨rfl, hafter⟩), ih hrest]
          rfl

end Arrangement

end Pickling
