import Mathlib.Data.Nat.Bitwise
/-!
Lists in which things are told by their places: nothing leaves its place, and new things come last.
-/
namespace Pickling

variable {α : Type} {R : α → α → Prop} {before between after : List α} {place : Nat} {a b : α}

/-- Every place is still taken, by something that what was there may have become. -/
def Onward (R : α → α → Prop) (before after : List α) : Prop :=
  ∀ (place : Nat) (a : α), before[place]? = some a → ∃ b, after[place]? = some b ∧ R a b

namespace Onward

theorem refl (hR : ∀ a, R a a) (before : List α) : Onward R before before := by
  intro place a hplace
  exact ⟨a, hplace, hR a⟩

theorem trans (hR : ∀ {a b c}, R a b → R b c → R a c) (first : Onward R before between)
    (second : Onward R between after) : Onward R before after := by
  intro place a hplace
  obtain ⟨b, hbetween, hfirst⟩ := first place a hplace
  obtain ⟨c, hafter, hsecond⟩ := second place b hbetween
  exact ⟨c, hafter, hR hfirst hsecond⟩

theorem append (hR : ∀ a, R a a) (before more : List α) : Onward R before (before ++ more) := by
  intro place a hplace
  have hlt := (List.getElem?_eq_some_iff.1 hplace).1
  exact ⟨a, by rw [List.getElem?_append_left hlt, hplace], hR a⟩

theorem set (hR : ∀ a, R a a) (hplace : before[place]? = some a) (h : R a b) :
    Onward R before (before.set place b) := by
  intro other c hother
  have hlt := (List.getElem?_eq_some_iff.1 hother).1
  by_cases heq : place = other
  · subst heq
    obtain rfl : a = c := Option.some.inj (hplace.symm.trans hother)
    exact ⟨b, List.getElem?_set_self hlt, h⟩
  · exact ⟨c, by rw [List.getElem?_set_ne heq, hother], hR c⟩

end Onward

end Pickling
