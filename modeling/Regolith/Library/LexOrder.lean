import Mathlib.Data.List.Lex
import Mathlib.Order.Lattice

-- Lexicographic order on lists: the next list after a list, and the lists that
-- start with a given one.
namespace LexOrder

variable {α : Type*} [LinearOrder α]

-- Appending the least element gives the immediate successor.
theorem lt_append_least_iff {least : α} (hleast : ∀ a, ¬a < least) (target list : List α) :
    list < target ++ [least] ↔ ¬target < list := by
  induction target generalizing list with
  | nil =>
      cases list with
      | nil => simp
      | cons head tail => simp [List.cons_lt_cons_iff, hleast]
  | cons a target ih =>
      cases list with
      | nil => simp
      | cons head tail =>
          simp only [List.cons_append, List.cons_lt_cons_iff, ih]
          rcases lt_trichotomy head a with h | rfl | h
          · simp [h, h.not_gt, h.ne']
          · simp
          · simp [h, h.not_gt, h.ne']

theorem append_lt_append_iff (front left right : List α) :
    front ++ left < front ++ right ↔ left < right := by
  induction front with
  | nil => rfl
  | cons head tail ih => simp [ih]

theorem not_lt_front {front list : List α} (h : front <+: list) : ¬list < front := by
  obtain ⟨rest, rfl⟩ := h
  have hempty : ¬rest < [] := by simp
  simpa using mt (append_lt_append_iff front rest []).mp hempty

-- A list that does not start with `front` lies wholly on one side of those that do.
theorem lt_or_append_lt {front list : List α} (h : ¬front <+: list) :
    list < front ∨ ∀ rest, front ++ rest < list := by
  induction front generalizing list with
  | nil => exact absurd List.nil_prefix h
  | cons a front ih =>
      cases list with
      | nil => exact .inl (by simp)
      | cons b list =>
          simp only [List.cons_append, List.cons_lt_cons_iff]
          rcases lt_trichotomy b a with hlt | rfl | hgt
          · exact .inl (.inl hlt)
          · rcases ih (fun hp => h (List.cons_prefix_cons.mpr ⟨rfl, hp⟩)) with hlt | hgt
            · exact .inl (.inr ⟨rfl, hlt⟩)
            · exact .inr (fun rest => .inr ⟨rfl, hgt rest⟩)
          · exact .inr (fun _ => .inl hgt)

-- With one more element: at or above `front ++ [a]` and below `front ++ [b]`,
-- for `b` the next element after `a`, are the lists that start with `front ++ [a]`.
theorem prefix_snoc_iff {a b : α} (hnext : ∀ c, ¬c < a ∧ c < b ↔ c = a) (front list : List α) :
    ¬list < front ++ [a] ∧ list < front ++ [b] ↔ front ++ [a] <+: list := by
  constructor
  · rintro ⟨hge, hlt⟩
    have hfront : front <+: list := by
      by_contra hnot
      rcases lt_or_append_lt hnot with h | h
      · exact hge (lt_of_lt_of_le h (not_lt.mp (not_lt_front ⟨[a], rfl⟩)))
      · exact absurd hlt (h [b]).not_gt
    obtain ⟨rest, rfl⟩ := hfront
    rw [append_lt_append_iff] at hge hlt
    cases rest with
    | nil => simp at hge
    | cons c rest =>
        simp only [List.cons_lt_cons_iff, List.not_lt_nil, and_false, or_false] at hge hlt
        obtain rfl := (hnext c).mp ⟨hge, hlt⟩
        exact ⟨rest, by simp⟩
  · rintro ⟨rest, rfl⟩
    have hab := ((hnext a).mpr rfl).2
    rw [List.append_assoc, append_lt_append_iff, append_lt_append_iff]
    simp [List.cons_lt_cons_iff, hab]

-- For a greatest element no upper bound is needed beside that of `front`.
theorem prefix_snoc_greatest_iff {top : α} (htop : ∀ a, ¬top < a) (front list : List α) :
    front ++ [top] <+: list ↔ front <+: list ∧ ¬list < front ++ [top] := by
  constructor
  · intro h
    exact ⟨(List.prefix_append front [top]).trans h, not_lt_front h⟩
  · rintro ⟨⟨rest, rfl⟩, hge⟩
    rw [append_lt_append_iff] at hge
    cases rest with
    | nil => simp at hge
    | cons c rest =>
        simp only [List.cons_lt_cons_iff, List.not_lt_nil, and_false, or_false] at hge
        obtain rfl : c = top := le_antisymm (not_lt.mp (htop c)) (not_lt.mp hge)
        exact ⟨rest, by simp⟩

end LexOrder
