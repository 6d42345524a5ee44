/-! Merging a list into another appends only those elements that the list does not know yet. -/

namespace CodeFirst

variable {α : Type} (known : α → α → Bool)

/-- Appends the elements of the second list that are not known when their turn comes. -/
def appendNew (l : List α) : List α → List α
  | [] => l
  | x :: rest => if l.any (known · x) then appendNew l rest else appendNew (l ++ [x]) rest

/-- The elements of the second list that `appendNew` leaves out, in order. -/
def leftOut (l : List α) : List α → List α
  | [] => []
  | x :: rest => if l.any (known · x) then x :: leftOut l rest else leftOut (l ++ [x]) rest

variable {known}

@[simp] theorem appendNew_nil (l : List α) : appendNew known l [] = l := rfl
@[simp] theorem leftOut_nil (l : List α) : leftOut known l [] = [] := rfl

theorem appendNew_append (l m n : List α) :
    appendNew known l (m ++ n) = appendNew known (appendNew known l m) n := by
  induction m generalizing l with
  | nil => rfl
  | cons x rest ih => simp only [List.cons_append, appendNew]; split <;> exact ih _

theorem subset_appendNew {l m : List α} {x : α} (h : x ∈ l) : x ∈ appendNew known l m := by
  induction m generalizing l with
  | nil => exact h
  | cons y rest ih =>
    simp only [appendNew]
    split
    · exact ih h
    · exact ih (List.mem_append_left _ h)

theorem nodup_appendNew {κ : Type} {key : α → κ} {l m : List α}
    (hk : ∀ y x, key y = key x → known y x = true) (h : (l.map key).Nodup) :
    ((appendNew known l m).map key).Nodup := by
  induction m generalizing l with
  | nil => exact h
  | cons x rest ih =>
    simp only [appendNew]
    split
    · exact ih h
    · next hx =>
      refine ih ?_
      rw [List.map_append, List.nodup_append]
      refine ⟨h, by simp, ?_⟩
      intro a ha b hb hab
      simp only [List.map_cons, List.map_nil, List.mem_singleton] at hb
      subst hb; subst hab
      obtain ⟨y, hy, hyx⟩ := List.mem_map.1 ha
      exact hx (List.any_eq_true.2 ⟨y, hy, hk y x hyx⟩)

section Duplicates

variable [BEq α] [LawfulBEq α] {l : List α} {x : α}

theorem eraseDups_concat_of_mem (h : x ∈ l) : (l ++ [x]).eraseDups = l.eraseDups := by
  have hold : [x].removeAll l = [] := by simpa [List.removeAll] using h
  rw [List.eraseDups_append, hold, List.eraseDups_nil, List.append_nil]

theorem eraseDups_concat_of_not_mem (h : x ∉ l) :
    (l ++ [x]).eraseDups = l.eraseDups ++ [x] := by
  have hnew : [x].removeAll l = [x] := by simpa [List.removeAll] using h
  rw [List.eraseDups_append, hnew]
  rfl

end Duplicates

end CodeFirst
