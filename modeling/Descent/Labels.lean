/-!
Sets of labels in ascending order, as a failure collects what it would have accepted.
Main statement: two sets with the same members are equal.
-/

namespace Descent

/-- Labels without repetition, ascending by code point. -/
structure Labels where
  toList : List String
  ascending : toList.Pairwise (· < ·)
deriving DecidableEq

namespace Labels

def insertSorted (label : String) : List String → List String
  | [] => [label]
  | first :: rest =>
    if label < first then label :: first :: rest
    else if label = first then first :: rest
    else first :: insertSorted label rest

theorem mem_insertSorted {label x : String} {xs : List String} :
    x ∈ insertSorted label xs ↔ x = label ∨ x ∈ xs := by
  induction xs with
  | nil => simp [insertSorted]
  | cons first rest ih =>
    simp only [insertSorted]
    split
    · simp
    · split
      · subst label; simp
      · simp only [List.mem_cons, ih]
        exact or_left_comm

theorem pairwise_insertSorted {label : String} {xs : List String}
    (h : xs.Pairwise (· < ·)) : (insertSorted label xs).Pairwise (· < ·) := by
  induction xs with
  | nil => simp [insertSorted]
  | cons first rest ih =>
    have ⟨below, sorted⟩ := List.pairwise_cons.mp h
    simp only [insertSorted]
    split
    · rename_i less
      refine List.pairwise_cons.mpr ⟨fun x hx => ?_, h⟩
      rcases List.mem_cons.mp hx with rfl | hx
      · exact less
      · exact String.lt_trans less (below x hx)
    · split
      · exact h
      · rename_i notLess different
        refine List.pairwise_cons.mpr ⟨fun x hx => ?_, ih sorted⟩
        rcases mem_insertSorted.mp hx with rfl | hx
        · exact Std.lt_of_le_of_ne (String.not_lt.mp notLess) (Ne.symm different)
        · exact below x hx

def empty : Labels := ⟨[], .nil⟩

instance : EmptyCollection Labels := ⟨empty⟩

instance : Membership String Labels := ⟨fun s label => label ∈ s.toList⟩

def insert (s : Labels) (label : String) : Labels :=
  ⟨insertSorted label s.toList, pairwise_insertSorted s.ascending⟩

def ofList (labels : List String) : Labels := labels.foldl insert ∅

def union (s t : Labels) : Labels := t.toList.foldl insert s

instance : Union Labels := ⟨union⟩

instance : Singleton String Labels := ⟨fun label => insert ∅ label⟩

theorem mem_def {label : String} {s : Labels} : label ∈ s ↔ label ∈ s.toList := Iff.rfl

@[simp] theorem notMem_empty (label : String) : ¬ label ∈ (∅ : Labels) := List.not_mem_nil

@[simp] theorem mem_insert {s : Labels} {label x : String} :
    x ∈ s.insert label ↔ x = label ∨ x ∈ s := mem_insertSorted

theorem mem_foldl_insert {labels : List String} {s : Labels} {x : String} :
    x ∈ labels.foldl insert s ↔ x ∈ s ∨ x ∈ labels := by
  induction labels generalizing s with
  | nil => simp
  | cons label rest ih => simp [ih, or_assoc, or_left_comm]

@[simp] theorem mem_ofList {labels : List String} {x : String} :
    x ∈ ofList labels ↔ x ∈ labels := by
  simp [ofList, mem_foldl_insert]

@[simp] theorem mem_union {s t : Labels} {x : String} : x ∈ s ∪ t ↔ x ∈ s ∨ x ∈ t :=
  mem_foldl_insert

@[simp] theorem mem_singleton {label x : String} : x ∈ ({label} : Labels) ↔ x = label := by
  show x ∈ insert ∅ label ↔ _
  simp

/-- A set is determined by its members, since both lists are ascending. -/
@[ext] theorem ext {s t : Labels} (h : ∀ label, label ∈ s ↔ label ∈ t) : s = t := by
  obtain ⟨xs, hx⟩ := s
  obtain ⟨ys, hy⟩ := t
  simp only [mem_def] at h
  congr
  induction xs generalizing ys with
  | nil =>
    cases ys with
    | nil => rfl
    | cons y ys => exact absurd ((h y).mpr List.mem_cons_self) List.not_mem_nil
  | cons x xs ih =>
    cases ys with
    | nil => exact absurd ((h x).mp List.mem_cons_self) List.not_mem_nil
    | cons y ys =>
      have ⟨belowX, sortedX⟩ := List.pairwise_cons.mp hx
      have ⟨belowY, sortedY⟩ := List.pairwise_cons.mp hy
      have same : x = y := by
        rcases List.mem_cons.mp ((h x).mp List.mem_cons_self) with eq | hxy
        · exact eq
        · rcases List.mem_cons.mp ((h y).mpr List.mem_cons_self) with eq | hyx
          · exact eq.symm
          · exact absurd (String.lt_trans (belowX y hyx) (belowY x hxy)) (String.lt_irrefl x)
      subst same
      congr 1
      refine ih sortedX ys sortedY fun label => ⟨fun hl => ?_, fun hl => ?_⟩
      · rcases List.mem_cons.mp ((h label).mp (List.mem_cons_of_mem x hl)) with rfl | found
        · exact absurd (belowX label hl) (String.lt_irrefl label)
        · exact found
      · rcases List.mem_cons.mp ((h label).mpr (List.mem_cons_of_mem x hl)) with rfl | found
        · exact absurd (belowY label hl) (String.lt_irrefl label)
        · exact found

end Labels
end Descent
