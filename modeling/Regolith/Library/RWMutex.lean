import Mathlib.Data.Finset.Erase
import Mathlib.Data.Finset.Insert
import Mathlib.Logic.Function.Basic
import Regolith.Library.RwLock

-- A reader-writer lock that guards no value: who holds which side of it.
structure RWMutex (ι : Type) where
  writer : Option ι
  readers : Finset ι
  excludes : writer = none ∨ readers = ∅

namespace RWMutex

open RwLock (Mode)

variable {ι : Type} [DecidableEq ι]

def free : RWMutex ι := ⟨none, ∅, .inl rfl⟩

def held (lk : RWMutex ι) (g : ι) : Option Mode :=
  if lk.writer = some g then some .write
  else if g ∈ lk.readers then some .read
  else none

-- `none` where the caller would have to wait.
def acquire (lk : RWMutex ι) (g : ι) : Mode → Option (RWMutex ι)
  | .read => if lk.writer = none then some ⟨none, insert g lk.readers, .inl rfl⟩ else none
  | .write => if lk.writer = none ∧ lk.readers = ∅ then some ⟨some g, ∅, .inr rfl⟩ else none

def release (lk : RWMutex ι) (g : ι) : Mode → RWMutex ι
  | .read => ⟨lk.writer, lk.readers.erase g, lk.excludes.imp_right fun h => by simp [h]⟩
  | .write => ⟨none, lk.readers, .inl rfl⟩

@[simp] theorem free_held (g : ι) : (free : RWMutex ι).held g = none := by
  simp [free, held]

theorem held_write_iff {lk : RWMutex ι} {g : ι} :
    lk.held g = some .write ↔ lk.writer = some g := by
  unfold held
  split_ifs <;> simp_all

-- Whoever holds the write side is the only holder.
theorem held_write_alone {lk : RWMutex ι} {g g' : ι} (h : lk.held g = some .write)
    (h' : lk.held g' ≠ none) : g' = g := by
  have hw := held_write_iff.mp h
  have hr : lk.readers = ∅ := lk.excludes.resolve_left (by simp [hw])
  by_contra hne
  exact h' (by simp [held, hw, hr, Ne.symm hne])

theorem acquire_held {lk lk' : RWMutex ι} {g : ι} {mode : Mode}
    (h : lk.acquire g mode = some lk') (g' : ι) :
    lk'.held g' = if g' = g then some mode else lk.held g' := by
  cases mode with
  | read =>
    simp only [acquire, Option.ite_none_right_eq_some, Option.some.injEq] at h
    obtain ⟨hw, rfl⟩ := h
    by_cases hg : g' = g <;> simp [held, hw, hg]
  | write =>
    simp only [acquire, Option.ite_none_right_eq_some, Option.some.injEq] at h
    obtain ⟨⟨hw, hr⟩, rfl⟩ := h
    by_cases hg : g' = g
    · simp [held, hg]
    · simp [held, hw, hr, hg, Ne.symm hg]

-- Nobody waits for a lock that nobody holds.
theorem exists_acquire {lk : RWMutex ι} (hfree : ∀ g, lk.held g = none) (g : ι) (mode : Mode) :
    ∃ lk', lk.acquire g mode = some lk' := by
  have hw : lk.writer = none := by
    by_contra hne
    obtain ⟨g', hg'⟩ := Option.ne_none_iff_exists'.mp hne
    simpa [held_write_iff.mpr hg'] using hfree g'
  have hr : lk.readers = ∅ := by
    refine Finset.eq_empty_of_forall_notMem fun g' hg' => ?_
    simpa [held, hw, hg'] using hfree g'
  cases mode <;> simp [acquire, hw, hr]

theorem acquire_no_writer {lk lk' : RWMutex ι} {g : ι} {mode : Mode}
    (h : lk.acquire g mode = some lk') (g' : ι) : lk.held g' ≠ some .write := by
  have hw : lk.writer = none := by
    cases mode <;> simp only [acquire, Option.ite_none_right_eq_some] at h
    · exact h.1
    · exact h.1.1
  simp [held_write_iff, hw]

theorem release_held {lk : RWMutex ι} {g : ι} {mode : Mode} (h : lk.held g = some mode)
    (g' : ι) : (lk.release g mode).held g' = if g' = g then none else lk.held g' := by
  cases mode with
  | read =>
    have hw : lk.writer ≠ some g := by
      intro hw
      simp [held, hw] at h
    by_cases hg : g' = g <;> simp [held, release, hw, hg]
  | write =>
    have hw := held_write_iff.mp h
    have hr : lk.readers = ∅ := lk.excludes.resolve_left (by simp [hw])
    by_cases hg : g' = g
    · simp [held, release, hr, hg]
    · simp [held, release, hw, hr, hg, Ne.symm hg]

end RWMutex
