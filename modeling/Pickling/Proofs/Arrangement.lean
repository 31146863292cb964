import Mathlib.Data.List.Basic
import Mathlib.Data.List.Induction
import Mathlib.Data.Nat.Bitwise
import Pickling.Proofs.Shape.Order
/-!
What becomes of elements that are put into a collection one by one. Main statements: the collection
stays one (`Arrangement.apart_ofList`), and of each class of equal elements it holds what they merge
into, the first of them with all later ones in their order (`Arrangement.mem_ofList_iff`).
-/
namespace Pickling.Arrangement

open Std

variable {α β : Type} {arrangement : Arrangement} {order : α → α → Ordering} {merge : α → α → α}
  {x y z : α} {xs rest : List α}

/-- What two elements of a collection are to each other, the earlier one first. -/
def Apart (arrangement : Arrangement) (order : α → α → Ordering) (a b : α) : Prop :=
  order a b ≠ .eq ∧ (arrangement = .sorted → order a b = .lt)

/-- Merging that never takes an element out of its class. -/
def Keeps (order : α → α → Ordering) (merge : α → α → α) : Prop :=
  ∀ old new other, order (merge old new) other = order old other

theorem order_congr (horder : OrientedCmp order) (h : ∀ other, order x other = order y other) (z : α) :
    order z x = order z y := by
  rw [horder.eq_swap, h, ← horder.eq_swap]

/-- An element meets its equal, or belongs before the first, or goes on to the rest. -/
theorem insert_cases (arrangement : Arrangement) (order : α → α → Ordering) (merge : α → α → α)
    (x y : α) (rest : List α) :
    (order x y = .eq ∧ arrangement.insert order merge x (y :: rest) = merge y x :: rest) ∨
    (arrangement = .sorted ∧ order x y = .lt ∧
      arrangement.insert order merge x (y :: rest) = x :: y :: rest) ∨
    (order x y ≠ .eq ∧ (arrangement = .sorted → order x y = .gt) ∧
      arrangement.insert order merge x (y :: rest) =
        y :: arrangement.insert order merge x rest) := by
  cases h : order x y with
  | eq => exact .inl ⟨rfl, by rw [insert.eq_def]; simp only [h]⟩
  | lt =>
      cases arrangement with
      | sorted => exact .inr (.inl ⟨rfl, rfl, by rw [insert.eq_def]; simp only [h]⟩)
      | hashed =>
          have hbehind : order x y ≠ .eq := by simp [h]
          exact .inr (.inr ⟨by simp, by simp, insert_behind (.inr ⟨rfl, hbehind⟩)⟩)
  | gt => exact .inr (.inr ⟨by simp, fun _ => rfl, insert_behind (.inl h)⟩)

theorem sum_insert_le (arrangement : Arrangement) (order : α → α → Ordering) (merge : α → α → α)
    {weight : α → Nat}
    (hmerge : ∀ old new, weight (merge old new) ≤ weight old + weight new) (x : α) (xs : List α) :
    ((arrangement.insert order merge x xs).map weight).sum ≤ (xs.map weight).sum + weight x := by
  induction xs with
  | nil => simp [insert]
  | cons y rest ih =>
      have hxy := hmerge y x
      obtain ⟨-, heq⟩ | ⟨-, -, heq⟩ | ⟨-, -, heq⟩ := insert_cases arrangement order merge x y rest
      all_goals
        simp only [heq, List.map_cons, List.sum_cons]
        omega

theorem exists_of_mem_insert (hkeeps : Keeps order merge)
    (h : z ∈ arrangement.insert order merge x xs) :
    ∃ y, (y = x ∨ y ∈ xs) ∧ ∀ other, order z other = order y other := by
  induction xs with
  | nil =>
      obtain rfl := List.mem_singleton.1 h
      exact ⟨z, .inl rfl, fun _ => rfl⟩
  | cons y rest ih =>
      obtain ⟨-, heq⟩ | ⟨-, -, heq⟩ | ⟨-, -, heq⟩ := insert_cases arrangement order merge x y rest
      · rw [heq] at h
        rcases List.mem_cons.1 h with rfl | h
        · exact ⟨y, .inr List.mem_cons_self, hkeeps y x⟩
        · exact ⟨z, .inr (List.mem_cons_of_mem y h), fun _ => rfl⟩
      · rw [heq] at h
        exact ⟨z, List.mem_cons.1 h, fun _ => rfl⟩
      · rw [heq] at h
        rcases List.mem_cons.1 h with rfl | h
        · exact ⟨z, .inr List.mem_cons_self, fun _ => rfl⟩
        · obtain ⟨other, hother, hsame⟩ := ih h
          exact ⟨other, hother.imp_right (List.mem_cons_of_mem y), hsame⟩

section Ordered

variable (horder : TransCmp order) (hkeeps : Keeps order merge)

include horder hkeeps

theorem apart_insert (h : xs.Pairwise (arrangement.Apart order)) :
    (arrangement.insert order merge x xs).Pairwise (arrangement.Apart order) := by
  induction xs with
  | nil => exact List.pairwise_singleton _ _
  | cons y rest ih =>
      obtain ⟨hfirst, hrest⟩ := List.pairwise_cons.1 h
      obtain ⟨-, heq⟩ | ⟨hsorted, hlt, heq⟩ | ⟨hne, hgt, heq⟩ :=
        insert_cases arrangement order merge x y rest
      · rw [heq]
        refine List.pairwise_cons.2 ⟨fun z hz => ?_, hrest⟩
        rw [Apart, hkeeps]
        exact hfirst z hz
      · have hbefore {z : α} (h : order x z = .lt) : arrangement.Apart order x z :=
          ⟨by simp [h], fun _ => h⟩
        rw [heq]
        refine List.pairwise_cons.2 ⟨fun z hz => hbefore ?_, h⟩
        rcases List.mem_cons.1 hz with rfl | hz
        · exact hlt
        · exact TransCmp.lt_trans hlt ((hfirst z hz).2 hsorted)
      · have hbehind : arrangement.Apart order y x :=
          ⟨fun h => hne (OrientedCmp.eq_symm h), fun h => OrientedCmp.lt_of_gt (hgt h)⟩
        rw [heq]
        refine List.pairwise_cons.2 ⟨fun z hz => ?_, ih hrest⟩
        obtain ⟨other, hother, hsame⟩ := exists_of_mem_insert hkeeps hz
        have hcongr := order_congr horder.toOrientedCmp hsame y
        rw [Apart, hcongr]
        rcases hother with rfl | hother
        · exact hbehind
        · exact hfirst other hother

/-- Only the class of the new element changes. -/
theorem find?_insert (h : xs.Pairwise (arrangement.Apart order)) (z : α) :
    (arrangement.insert order merge x xs).find? (order z · == .eq) =
      if order z x = .eq then some (((xs.find? (order z · == .eq)).map (merge · x)).getD x)
      else xs.find? (order z · == .eq) := by
  induction xs with
  | nil =>
      change [x].find? _ = _
      by_cases hx : order z x = .eq <;> simp [hx]
  | cons y rest ih =>
      obtain ⟨hfirst, hrest⟩ := List.pairwise_cons.1 h
      obtain ⟨heqv, heq⟩ | ⟨hsorted, hlt, heq⟩ | ⟨hne, hgt, heq⟩ :=
        insert_cases arrangement order merge x y rest
      · have hmerged := order_congr horder.toOrientedCmp (hkeeps y x) z
        have hclass : order z x = order z y := TransCmp.congr_right heqv
        rw [heq]
        by_cases hy : order z y = .eq <;> simp [hmerged, hclass, hy]
      · rw [heq]
        by_cases hx : order z x = .eq
        · -- all that follows comes after the new element, so that nothing there is equal to it
          have hnone : (y :: rest).find? (order z · == .eq) = none := by
            rw [List.find?_eq_none]
            intro other hother
            have hafter : order x other = .lt := by
              rcases List.mem_cons.1 hother with rfl | hother
              · exact hlt
              · exact TransCmp.lt_trans hlt ((hfirst other hother).2 hsorted)
            simp [TransCmp.congr_left hx, hafter]
          rw [hnone, if_pos hx]
          simp [hx]
        · rw [if_neg hx, List.find?_cons_of_neg (by simp [hx])]
      · rw [heq]
        by_cases hy : order z y = .eq
        · have hx : order z x ≠ .eq := fun hx =>
            hne (TransCmp.eq_trans (OrientedCmp.eq_symm hx) hy)
          simp [hx, hy]
        · simp [hy, ih hrest]

end Ordered

/-- What the equal elements of a row become, from the first to the last. -/
def merged (merge : α → α → α) : List α → Option α
  | [] => none
  | first :: rest => some (rest.foldl merge first)

theorem merged_concat (merge : α → α → α) (xs : List α) (x : α) :
    merged merge (xs ++ [x]) = some (((merged merge xs).map (merge · x)).getD x) := by
  cases xs with
  | nil => rfl
  | cons first rest => simp [merged]

theorem ofList_concat (xs : List α) (x : α) : arrangement.ofList order merge (xs ++ [x]) =
    arrangement.insert order merge x (arrangement.ofList order merge xs) := by
  simp [ofList]

theorem apart_ofList (horder : TransCmp order) (hkeeps : Keeps order merge) (items : List α) :
    (arrangement.ofList order merge items).Pairwise (arrangement.Apart order) := by
  induction items using List.reverseRecOn with
  | nil => exact .nil
  | append_singleton items x ih =>
      rw [ofList_concat]
      exact apart_insert horder hkeeps ih

theorem find?_ofList (horder : TransCmp order) (hkeeps : Keeps order merge) (items : List α) (z : α) :
    (arrangement.ofList order merge items).find? (order z · == .eq) =
      merged merge (items.filter (order z · == .eq)) := by
  induction items using List.reverseRecOn with
  | nil => rfl
  | append_singleton items x ih =>
      rw [ofList_concat, find?_insert horder hkeeps (apart_ofList horder hkeeps items), ih,
        List.filter_append]
      by_cases hx : order z x = .eq
      · simp [hx, merged_concat]
      · simp [hx]

theorem mem_iff_find? (horder : TransCmp order) (h : xs.Pairwise (arrangement.Apart order)) :
    x ∈ xs ↔ xs.find? (order x · == .eq) = some x := by
  refine ⟨fun hx => ?_, List.mem_of_find?_eq_some⟩
  induction xs with
  | nil => exact absurd hx List.not_mem_nil
  | cons y rest ih =>
      obtain ⟨hfirst, hrest⟩ := List.pairwise_cons.1 h
      rcases List.mem_cons.1 hx with rfl | hx
      · exact List.find?_cons_of_pos (by simp [ReflCmp.compare_self])
      · have hne : order x y ≠ .eq := fun heq => (hfirst x hx).1 (OrientedCmp.eq_symm heq)
        rw [List.find?_cons_of_neg (by simp [hne])]
        exact ih hrest hx

theorem mem_ofList_iff (horder : TransCmp order) (hkeeps : Keeps order merge) (items : List α) :
    x ∈ arrangement.ofList order merge items ↔
      merged merge (items.filter (order x · == .eq)) = some x := by
  rw [mem_iff_find? horder (apart_ofList horder hkeeps items), find?_ofList horder hkeeps]

/-- Where an equal element stays, the first of a class is kept. -/
theorem merged_first (xs : List α) : merged (fun old _ => old) xs = xs.head? := by
  cases xs with
  | nil => rfl
  | cons first rest => exact congrArg some (List.foldl_fixed rest)

theorem merged_entry (xs : List (α × β)) :
    merged (fun old new => (old.1, new.2)) xs =
      xs.head?.bind fun first => xs.getLast?.map fun last => (first.1, last.2) := by
  cases xs with
  | nil => rfl
  | cons first rest =>
      induction rest using List.reverseRecOn with
      | nil => rfl
      | append_singleton rest last ih =>
          have hlast : (first :: rest ++ [last]).getLast? = some last := List.getLast?_concat
          rw [← List.cons_append, merged_concat, ih, hlast]
          cases hbefore : (first :: rest).getLast? with
          | none => simp at hbefore
          | some other => rfl

end Pickling.Arrangement
