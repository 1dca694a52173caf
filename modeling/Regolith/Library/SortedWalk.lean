import Mathlib.Data.List.Basic

-- Walking part of a sorted list by moves over the whole of it. `r` is the order
-- of the walk, `inside` selects the part, and a move looks for the first entry
-- that satisfies a predicate which, once true, stays true along the walk.
namespace SortedWalk

variable {α : Type*} {r : α → α → Prop}

-- A predicate that stays true along the walk.
def Upward (r : α → α → Prop) (reach : α → Bool) : Prop :=
  ∀ a b, r a b → reach a → reach b

-- Once a reached entry lies outside, everything beyond it does.
def LeavesOnce (r : α → α → Prop) (reach inside : α → Bool) : Prop :=
  ∀ a b, reach a → inside a = false → r a b → inside b = false

theorem filter_eq_dropWhile {list : List α} {reach : α → Bool} (hsorted : list.Pairwise r)
    (hup : Upward r reach) : list.filter reach = list.dropWhile (!reach ·) := by
  induction list with
  | nil => rfl
  | cons head tail ih =>
      obtain ⟨hhead, htail⟩ := List.pairwise_cons.mp hsorted
      by_cases h : reach head
      · have hall : ∀ x ∈ tail, reach x := fun x hx => hup head x (hhead x hx) h
        simp [h, List.filter_eq_self.mpr hall]
      · simp [h, ih htail]

theorem dropWhile_eq_drop_findIdx (list : List α) (reach : α → Bool) :
    list.dropWhile (!reach ·) = list.drop (list.findIdx reach) := by
  induction list with
  | nil => rfl
  | cons head tail ih =>
      by_cases h : reach head
      · simp [h, List.findIdx_cons]
      · simp [h, List.findIdx_cons, ih]

-- From the first entry reached, the walk goes on over a suffix.
theorem filter_eq_drop_findIdx {list : List α} {reach : α → Bool} (hsorted : list.Pairwise r)
    (hup : Upward r reach) : list.filter reach = list.drop (list.findIdx reach) := by
  rw [filter_eq_dropWhile hsorted hup, dropWhile_eq_drop_findIdx]

-- The first element that satisfies a weaker predicate is the first of a stronger one it satisfies.
theorem find?_of_imp {list : List α} {weak strong : α → Bool} {entry : α}
    (hfind : list.find? weak = some entry) (hentry : strong entry)
    (himp : ∀ x, strong x → weak x) : list.find? strong = some entry := by
  obtain ⟨-, before, after, rfl, hbefore⟩ := List.find?_eq_some_iff_append.mp hfind
  apply List.find?_eq_some_iff_append.mpr
  refine ⟨hentry, before, after, rfl, fun x hx => ?_⟩
  have hweak := hbefore x hx
  by_contra h
  simp [himp x (by simpa using h)] at hweak

section Beyond

variable [DecidableRel r]

-- The entries beyond an entry of the list are the ones after it.
theorem filter_beyond {before after : List α} {entry : α} (hasymm : ∀ a b, r a b → ¬r b a)
    (hsorted : (before ++ entry :: after).Pairwise r) :
    (before ++ entry :: after).filter (r entry ·) = after := by
  obtain ⟨-, hrest, hcross⟩ := List.pairwise_append.mp hsorted
  obtain ⟨hafter, -⟩ := List.pairwise_cons.mp hrest
  have hbefore : before.filter (r entry ·) = [] := by
    apply List.filter_eq_nil_iff.mpr
    intro x hx
    simpa using hasymm x entry (hcross x hx entry (by simp))
  have hself : ¬r entry entry := fun h => hasymm entry entry h h
  have hall : after.filter (r entry ·) = after :=
    List.filter_eq_self.mpr (fun x hx => by simpa using hafter x hx)
  simp [List.filter_append, hbefore, hself, hall]

-- What a move over the whole list says about the selected part: an entry found
-- inside is the next of the part, and one found outside ends it.
theorem filter_reach_of_find {list : List α} {reach inside : α → Bool}
    (hasymm : ∀ a b, r a b → ¬r b a) (hsorted : list.Pairwise r) (hup : Upward r reach)
    (hleaves : LeavesOnce r reach inside) :
    (list.filter inside).filter reach =
      match list.find? reach with
      | none => []
      | some entry =>
          if inside entry then entry :: (list.filter inside).filter (r entry ·) else [] := by
  cases hfind : list.find? reach with
  | none =>
      apply List.filter_eq_nil_iff.mpr
      intro x hx
      exact List.find?_eq_none.mp hfind x (List.mem_of_mem_filter hx)
  | some entry =>
      obtain ⟨hreach, before, after, rfl, hbefore⟩ := List.find?_eq_some_iff_append.mp hfind
      obtain ⟨-, hrest, -⟩ := List.pairwise_append.mp hsorted
      obtain ⟨hafter, -⟩ := List.pairwise_cons.mp hrest
      have hskip : before.filter reach = [] := by
        apply List.filter_eq_nil_iff.mpr
        intro x hx
        simpa using hbefore x hx
      have hkeep : after.filter reach = after :=
        List.filter_eq_self.mpr (fun x hx => hup entry x (hafter x hx) hreach)
      have hbeyond : ((before ++ entry :: after).filter inside).filter (r entry ·) =
          after.filter inside := by
        rw [List.filter_comm, filter_beyond hasymm hsorted]
      rw [List.filter_comm, List.filter_append, hskip, List.filter_cons_of_pos hreach, hkeep,
        List.nil_append]
      simp only [hbeyond]
      by_cases hinside : inside entry
      · simp [hinside]
      · have hnone : after.filter inside = [] := by
          apply List.filter_eq_nil_iff.mpr
          intro x hx
          simp [hleaves entry x hreach (by simpa using hinside) (hafter x hx)]
        simp [hinside, hnone]

end Beyond

end SortedWalk
