import Mathlib.Data.List.Basic
import Mathlib.Logic.Function.Iterate

-- Pull iteration. A source is moved by `step`, which tells whether it then stands on
-- an element or fails; `Shows` is what it stands on, and `Cut` describes a source
-- that a failure has left behind.
structure Pull (σ ε α : Type*) where
  step : σ → Except ε Bool × σ
  Shows : Option α → σ → Prop
  Cut : σ → Prop

namespace Pull

variable {σ σ' ε α : Type*} {p : Pull σ ε α} {q : Pull σ' ε α}

-- Nothing is left, and however often the source is moved nothing comes.
def Over (p : Pull σ ε α) (source : σ) : Prop :=
  ∀ n, p.Shows none ((fun s => (p.step s).2)^[n] source) ∧
    (p.step ((fun s => (p.step s).2)^[n] source)).1 = .ok false

-- What the move with this result has led to: the elements of a list, one for this
-- move and each further one, and then a clean end (`none`) or a failure.
def Yields (p : Pull σ ε α) (fin : Option ε) : List α → Except ε Bool × σ → Prop
  | [], result =>
      match fin with
      | none => result.1 = .ok false ∧ p.Over result.2
      | some error => result.1 = .error error ∧ p.Cut result.2
  | x :: xs, result =>
      result.1 = .ok true ∧ p.Shows (some x) result.2 ∧ p.Yields fin xs (p.step result.2)

-- The same of a source that stands somewhere already.
def Stands (p : Pull σ ε α) (fin : Option ε) (current : Option α) (xs : List α)
    (source : σ) : Prop :=
  p.Shows current source ∧ p.Yields fin xs (p.step source)

-- A walk over `list` that may stop short of its end, with a failure, where failures
-- are possible.
def Runs (p : Pull σ ε α) (faulty : Prop) (list : List α) (result : Except ε Bool × σ) : Prop :=
  ∃ xs fin, p.Yields fin xs result ∧ xs <+: list ∧ (fin = none → xs = list) ∧
    (fin ≠ none → faulty)

-- What the move with this result, and each further one, finds at the least.
def Finds (p : Pull σ ε α) : List α → Except ε Bool × σ → Prop
  | [], _ => True
  | x :: xs, result => result.1 = .ok true ∧ p.Shows (some x) result.2 ∧ p.Finds xs (p.step result.2)

theorem over_of_invariant (Inv : σ → Prop) (hshows : ∀ s, Inv s → p.Shows none s)
    (hstop : ∀ s, Inv s → (p.step s).1 = .ok false) (hkeep : ∀ s, Inv s → Inv (p.step s).2)
    {source : σ} (h : Inv source) : p.Over source := by
  intro n
  have hinv : Inv ((fun s => (p.step s).2)^[n] source) := by
    induction n with
    | zero => exact h
    | succ n ih =>
        rw [Function.iterate_succ_apply']
        exact hkeep _ ih
  exact ⟨hshows _ hinv, hstop _ hinv⟩

theorem Over.shows {source : σ} (h : p.Over source) : p.Shows none source := (h 0).1

theorem Over.stops {source : σ} (h : p.Over source) : (p.step source).1 = .ok false := (h 0).2

theorem Over.next {source : σ} (h : p.Over source) : p.Over (p.step source).2 := by
  intro n
  have hn := h (n + 1)
  rwa [Function.iterate_succ_apply] at hn

theorem Over.yields {source : σ} (h : p.Over source) : p.Yields none [] (p.step source) :=
  ⟨h.stops, h.next⟩

theorem Over.stands {source : σ} (h : p.Over source) : p.Stands none none [] source :=
  ⟨h.shows, h.yields⟩

theorem Stands.isOver {source : σ} (h : p.Stands none none [] source) : p.Over source := by
  obtain ⟨hshows, hstop, hover⟩ := h
  intro n
  cases n with
  | zero => exact ⟨hshows, hstop⟩
  | succ n =>
      rw [Function.iterate_succ_apply]
      exact hover n

namespace Yields

variable {fin : Option ε} {x : α} {xs : List α} {result : Except ε Bool × σ}

-- Where the walk stands after a move that found an element.
theorem stands (h : p.Yields fin (x :: xs) result) : p.Stands fin (some x) xs result.2 := h.2

theorem finds (h : p.Yields fin xs result) : p.Finds xs result := by
  induction xs generalizing result with
  | nil => trivial
  | cons x xs ih => exact ⟨h.1, h.2.1, ih h.2.2⟩

theorem again (h : p.Yields none [] result) : p.Yields none [] (p.step result.2) :=
  Over.yields h.2

-- Two sources with the same elements to come answer the move alike, and stand alike after it.
theorem agree {result' : Except ε Bool × σ'} (h : p.Yields none xs result)
    (h' : q.Yields none xs result') :
    result.1 = result'.1 ∧ ∃ current rest,
      p.Stands none current rest result.2 ∧ q.Stands none current rest result'.2 := by
  cases xs with
  | nil => exact ⟨h.1.trans h'.1.symm, none, [], Over.stands h.2, Over.stands h'.2⟩
  | cons x xs => exact ⟨h.1.trans h'.1.symm, some x, xs, h.stands, h'.stands⟩

theorem runs {faulty : Prop} (h : p.Yields none xs result) : p.Runs faulty xs result :=
  ⟨xs, none, h, List.prefix_rfl, fun _ => rfl, fun hfin => absurd rfl hfin⟩

end Yields

-- A change to the source that its moves do not see.
structure Unseen (p : Pull σ ε α) (change : σ → σ) : Prop where
  step : ∀ s, p.step (change s) = ((p.step s).1, change (p.step s).2)
  shows : ∀ current s, p.Shows current s → p.Shows current (change s)
  cut : ∀ s, p.Cut s → p.Cut (change s)

namespace Unseen

variable {change : σ → σ} {fin : Option ε} {source : σ}

theorem isOver (unseen : p.Unseen change) (h : p.Over source) : p.Over (change source) := by
  apply over_of_invariant fun s => ∃ s', s = change s' ∧ p.Over s'
  · rintro _ ⟨s, rfl, hs⟩
    exact unseen.shows none s hs.shows
  · rintro _ ⟨s, rfl, hs⟩
    rw [unseen.step]
    exact hs.stops
  · rintro _ ⟨s, rfl, hs⟩
    rw [unseen.step]
    exact ⟨_, rfl, hs.next⟩
  · exact ⟨source, rfl, h⟩

theorem yields (unseen : p.Unseen change) {xs : List α} {result : Except ε Bool × σ}
    (h : p.Yields fin xs result) : p.Yields fin xs (result.1, change result.2) := by
  induction xs generalizing result with
  | nil =>
      cases fin with
      | none => exact ⟨h.1, unseen.isOver h.2⟩
      | some error => exact ⟨h.1, unseen.cut _ h.2⟩
  | cons x xs ih =>
      refine ⟨h.1, unseen.shows _ _ h.2.1, ?_⟩
      rw [unseen.step]
      exact ih h.2.2

theorem stands (unseen : p.Unseen change) {current : Option α} {xs : List α}
    (h : p.Stands fin current xs source) : p.Stands fin current xs (change source) := by
  refine ⟨unseen.shows _ _ h.1, ?_⟩
  rw [unseen.step]
  exact unseen.yields h.2

end Unseen

namespace Runs

variable {faulty : Prop} {x : α} {list : List α} {result : Except ε Bool × σ}

theorem ended (hstop : result.1 = .ok false) (hover : p.Over result.2) :
    p.Runs faulty [] result :=
  Yields.runs ⟨hstop, hover⟩

theorem failed {error : ε} (hfaulty : faulty) (herror : result.1 = .error error)
    (hcut : p.Cut result.2) : p.Runs faulty list result :=
  ⟨[], some error, ⟨herror, hcut⟩, List.nil_prefix, by simp, fun _ => hfaulty⟩

theorem found (hok : result.1 = .ok true) (hshows : p.Shows (some x) result.2)
    (hnext : p.Runs faulty list (p.step result.2)) : p.Runs faulty (x :: list) result := by
  obtain ⟨xs, fin, hyields, hfront, hclean, hfault⟩ := hnext
  exact ⟨x :: xs, fin, ⟨hok, hshows, hyields⟩, List.cons_prefix_cons.mpr ⟨rfl, hfront⟩,
    fun hfin => by rw [hclean hfin], hfault⟩

-- Where nothing can fail the walk covers the list.
theorem yields (h : p.Runs False list result) : p.Yields none list result := by
  obtain ⟨xs, fin, hyields, -, hclean, hfault⟩ := h
  cases fin with
  | none => rwa [← hclean rfl]
  | some error => exact (hfault (by simp)).elim

end Runs

end Pull
