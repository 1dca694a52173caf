import Mathlib.Algebra.BigOperators.Group.Finset.Piecewise
import Mathlib.Algebra.BigOperators.Ring.Finset
import Mathlib.Algebra.Order.BigOperators.Group.Finset
import Regolith.Library.Discipline

-- Calls that return: under a discipline nobody waits for ever, and nobody goes on for ever,
-- even where the lock lets no reader in while somebody waits to write.
namespace Goroutine

open RwLock (Mode)

variable {ι : Type} [DecidableEq ι] {S : Signature}

namespace Event

-- A step of a method under way.
def isWork : Event ι S → Bool
  | .raise _ | .enter _ _ => false
  | _ => true

end Event

-- There are at most so many steps to the end of a method.
def Prog.Within : Prog S → Nat → Prop
  | .lock _ next, n + 1 | .unlock _ next, n + 1 => next.Within n
  | .access _ _ next, n + 1 => ∀ value, (next value).Within n
  | .call _ next, n + 2 => ∀ r, (next r).Within n
  | .ret _, _ + 1 => True
  | _, _ => False

omit [DecidableEq ι] in
theorem Prog.Within.mono {p : Prog S} {n k : Nat} (h : p.Within n) (hle : n ≤ k) :
    p.Within k := by
  induction p generalizing n k with
  | lock mode next ih | unlock mode next ih =>
    obtain ⟨n, rfl⟩ := Nat.exists_eq_succ_of_ne_zero (n := n) (by rintro rfl; exact h)
    obtain ⟨k, rfl⟩ := Nat.exists_eq_succ_of_ne_zero (n := k) (by omega)
    exact ih h (Nat.le_of_succ_le_succ hle)
  | access flag new next ih =>
    obtain ⟨n, rfl⟩ := Nat.exists_eq_succ_of_ne_zero (n := n) (by rintro rfl; exact h)
    obtain ⟨k, rfl⟩ := Nat.exists_eq_succ_of_ne_zero (n := k) (by omega)
    exact fun value => ih value (h value) (Nat.le_of_succ_le_succ hle)
  | call c next ih =>
    rcases n with _ | _ | n
    · exact h.elim
    · exact h.elim
    · obtain ⟨k, rfl⟩ := Nat.exists_eq_add_of_le' (show 2 ≤ k by omega)
      exact fun r => ih r (h r) (by omega)
  | ret answer =>
    obtain ⟨n, rfl⟩ := Nat.exists_eq_succ_of_ne_zero (n := n) (by rintro rfl; exact h)
    obtain ⟨k, rfl⟩ := Nat.exists_eq_succ_of_ne_zero (n := k) (by omega)
    trivial

def Frame.Within (f : Frame S) (n : Nat) : Prop :=
  f.code.Within (if f.calling then n + 1 else n)

omit [DecidableEq ι] in
theorem Frame.Within.mono {f : Frame S} {n k : Nat} (h : f.Within n) (hle : n ≤ k) : f.Within k :=
  Prog.Within.mono h (by split <;> omega)

variable [DecidableEq S.Flag] {o : Object S}

variable {bound : Nat} {τ : List (Event ι S)} {s s' : State ι S} {e : Event ι S} {g : ι}

-- A step of a method leaves it one step less, and the others where they are.
theorem Step.less (hs : Step o s e s') (hwork : e.isWork = true) :
    ∃ g f, e.actor = some g ∧ s.frames g = some f ∧
      (∀ g' ≠ g, s'.frames g' = s.frames g') ∧
      ∀ n, f.Within n → ∃ n' < n, ∀ f' ∈ s'.frames g, f'.Within n' := by
  have hput : ∀ {g : ι} {f : Frame S} {frame : Option (Frame S)}, e.actor = some g →
      s.frames g = some f → s'.frames = (s.put g frame).frames →
      (∀ n, f.Within n → ∃ n' < n, ∀ f' ∈ frame, f'.Within n') →
      ∃ g f, e.actor = some g ∧ s.frames g = some f ∧
        (∀ g' ≠ g, s'.frames g' = s.frames g') ∧
        ∀ n, f.Within n → ∃ n' < n, ∀ f' ∈ s'.frames g, f'.Within n' := by
    intro g f frame he hf hframes hless
    refine ⟨g, f, he, hf, fun g' hg => by rw [hframes, State.put_frames_of_ne _ _ hg], ?_⟩
    rw [hframes, State.put_frames_self]
    exact hless
  cases hs with
  | raise | enter => cases hwork
  | lock hf _ | unlock hf _ =>
    refine hput rfl hf rfl fun n hn => ?_
    cases n with
    | zero => exact hn.elim
    | succ n => exact ⟨n, n.lt_succ_self, by rintro f ⟨⟩; exact hn⟩
  | access hf =>
    refine hput rfl hf rfl fun n hn => ?_
    cases n with
    | zero => exact hn.elim
    | succ n => exact ⟨n, n.lt_succ_self, by rintro f ⟨⟩; exact hn _⟩
  | start hf =>
    refine hput rfl hf rfl fun n hn => ?_
    rcases n with _ | _ | n
    · exact hn.elim
    · exact hn.elim
    · exact ⟨n + 1, (n + 1).lt_succ_self, by rintro f ⟨⟩; exact hn⟩
  | finish r hf =>
    refine hput rfl hf rfl fun n hn => ?_
    cases n with
    | zero => exact hn.elim
    | succ n => exact ⟨n, n.lt_succ_self, by rintro f ⟨⟩; exact hn r⟩
  | leave hf =>
    refine hput rfl hf rfl fun n hn => ?_
    cases n with
    | zero => exact hn.elim
    | succ n => exact ⟨n, n.lt_succ_self, by simp⟩

-- A call under way has at most `bound` steps left, at any time.
theorem Runs.within (hbound : ∀ m, (o.body m).Within bound) (run : Runs o τ s) {f : Frame S}
    (hf : s.frames g = some f) : f.Within bound := by
  refine run.invariant (I := fun _ s => ∀ g f, s.frames g = some f → f.Within bound) nofun ?_ g f hf
  intro τ s e s' _ ih hs g f hf
  cases hwork : e.isWork with
  | true =>
    obtain ⟨g', f', -, hf', hothers, hless⟩ := hs.less hwork
    by_cases hg : g = g'
    · subst hg
      obtain ⟨n, hn, hleft⟩ := hless bound (ih g f' hf')
      exact (hleft f hf).mono hn.le
    · exact ih g f (hothers g hg ▸ hf)
  | false =>
    cases hs with
    | raise => exact ih g f hf
    | @enter g' m h =>
      by_cases hg : g = g'
      · subst hg
        obtain rfl : _ = f := by simpa using hf
        exact hbound m
      · exact ih g f (State.put_frames_of_ne s _ hg ▸ hf)
    | _ => cases hwork

def WaitsToWrite (s : State ι S) (g : ι) : Prop :=
  ∃ m next, s.frames g = some ⟨m, .lock .write next, false⟩

-- What a lock that prefers writers admits.
def Admitted (s : State ι S) : Event ι S → Prop
  | .lock _ .read => ∀ g, ¬WaitsToWrite s g
  | _ => True

structure Advance (o : Object S) (s : State ι S) (e : Event ι S) (s' : State ι S) : Prop where
  step : Step o s e s'
  work : e.isWork = true
  admitted : Admitted s e

section Unstuck

variable {γ : Type} {D : Discipline ι S γ}

-- Whoever holds the lock goes on.
theorem Sound.holder_advances (h : Sound o D τ s) (hreply : ∀ c, Nonempty (S.Reply c)) {held : Mode}
    (hheld : s.lk.held g = some held) : ∃ e s', Advance o s e s' := by
  cases hf : s.frames g with
  | none => simp [h.idle hf] at hheld
  | some f =>
    obtain ⟨m, code, calling⟩ := f
    obtain ⟨st, hsafe, hfits⟩ := h.stands hf
    cases st with
    | before => exact absurd (hfits.symm.trans hheld) (by simp)
    | after entry mine => exact absurd (hfits.1.symm.trans hheld) (by simp)
    | inside held' entry mine now =>
      obtain rfl : held' = held := Option.some.inj (hfits.1.symm.trans hheld)
      cases calling with
      | true =>
        obtain ⟨c, next, rfl, -⟩ := hsafe
        obtain ⟨r⟩ := hreply c
        exact ⟨_, _, .finish r hf, rfl, trivial⟩
      | false =>
        cases code with
        | lock mode next => exact hsafe.elim
        | unlock mode next =>
          obtain ⟨rfl, -⟩ := hsafe
          exact ⟨_, _, .unlock hf hheld, rfl, trivial⟩
        | access flag new next => exact ⟨_, _, .access hf, rfl, trivial⟩
        | call c next => exact ⟨_, _, .start hf, rfl, trivial⟩
        | ret answer => exact hsafe.elim

-- Nobody holds the lock.
theorem Sound.free_advances (h : Sound o D τ s) (hfree : ∀ g, s.lk.held g = none) {f : Frame S}
    (hf : s.frames g = some f) : ∃ e s', Advance o s e s' := by
  by_cases hwaits : ∃ g', WaitsToWrite s g'
  · obtain ⟨g', m, next, hf'⟩ := hwaits
    obtain ⟨lk, hlk⟩ := RWMutex.exists_acquire hfree g' .write
    exact ⟨_, _, .lock hf' hlk, rfl, trivial⟩
  · obtain ⟨m, code, calling⟩ := f
    obtain ⟨st, hsafe, hfits⟩ := h.stands hf
    cases calling with
    | true =>
      obtain ⟨c, next, rfl, hawaits⟩ := hsafe
      cases st with
      | before | after => exact hawaits.elim
      | inside held entry mine now => exact absurd (hfits.1.symm.trans (hfree g)) nofun
    | false =>
      cases st with
      | inside held entry mine now => exact absurd (hfits.1.symm.trans (hfree g)) nofun
      | before =>
        cases code with
        | lock mode next =>
          obtain ⟨lk, hlk⟩ := RWMutex.exists_acquire hfree g mode
          refine ⟨_, _, .lock hf hlk, rfl, ?_⟩
          cases mode with
          | read => exact not_exists.mp hwaits
          | write => trivial
        | unlock | access | call | ret => exact hsafe.elim
      | after entry mine =>
        cases code with
        | ret answer => exact ⟨_, _, .leave hf, rfl, trivial⟩
        | lock | unlock | access | call => exact hsafe.elim

theorem Sound.advances (h : Sound o D τ s) (hreply : ∀ c, Nonempty (S.Reply c)) {f : Frame S}
    (hf : s.frames g = some f) : ∃ e s', Advance o s e s' := by
  by_cases hfree : ∀ g, s.lk.held g = none
  · exact h.free_advances hfree hf
  · obtain ⟨g', hheld⟩ := not_forall.mp hfree
    obtain ⟨held, hheld⟩ := Option.ne_none_iff_exists'.mp hheld
    exact h.holder_advances hreply hheld

end Unstuck

-- What a goroutine has left to do, where calls under way have `bound` steps left at the most.
def budget (bound : Nat) (s : State ι S) (g : ι) : Nat :=
  if (s.frames g).isSome then bound else 0

-- What it did since then is paid from that.
def Paid (n : Nat) (τ : List (Event ι S)) (s : State ι S) (g : ι) : Prop :=
  match s.frames g with
  | none => (own g τ).length ≤ n
  | some f => ∃ k, f.Within k ∧ (own g τ).length + k ≤ n

omit [DecidableEq S.Flag] in
theorem Paid.length_le {n : Nat} (h : Paid n τ s g) : (own g τ).length ≤ n := by
  unfold Paid at h
  cases hf : s.frames g with
  | none => simpa only [hf] using h
  | some f =>
    simp only [hf] at h
    obtain ⟨k, -, h⟩ := h
    omega

theorem Advance.paid {n : Nat} (h : Paid n τ s g) (hs : Advance o s e s') :
    Paid n (τ ++ [e]) s' g := by
  obtain ⟨g', f, he, hf, hothers, hless⟩ := hs.step.less hs.work
  by_cases hg : g = g'
  · subst hg
    simp only [Paid, hf] at h
    obtain ⟨k, hwithin, hpaid⟩ := h
    obtain ⟨k', hk', hleft⟩ := hless k hwithin
    simp only [Paid, own_snoc_self he, List.length_append, List.length_singleton]
    cases hf' : s'.frames g with
    | none =>
      simp only
      omega
    | some f' =>
      simp only
      exact ⟨k', hleft f' hf', by omega⟩
  · unfold Paid at h ⊢
    rw [hothers g hg, own_snoc_of_ne (by simpa [he] using Ne.symm hg)]
    exact h

theorem own_length_le (hwithin : ∀ {g f}, s.frames g = some f → f.Within bound)
    {τ' : List (Event ι S)} (run : Run (Advance o) s τ' s') (g : ι) :
    (own g τ').length ≤ budget bound s g := by
  refine (run.invariant (I := fun τ s' => Paid (budget bound s g) τ s' g) ?_
    fun _ h hs => Advance.paid h hs).length_le
  unfold Paid budget
  cases hf : s.frames g with
  | none => exact Nat.le_refl 0
  | some f => exact ⟨bound, hwithin hf, by simp [own]⟩

section Total

omit [DecidableEq S.Flag]

theorem length_own_cons (e : Event ι S) (τ : List (Event ι S)) (g : ι) :
    (own g (e :: τ)).length = (own g τ).length + if e.actor = some g then 1 else 0 := by
  by_cases h : e.actor = some g <;> simp [own, h]

theorem length_eq_sum {A : Finset ι} {τ : List (Event ι S)}
    (hA : ∀ e ∈ τ, ∃ g ∈ A, e.actor = some g) : τ.length = ∑ g ∈ A, (own g τ).length := by
  induction τ with
  | nil => simp [own]
  | cons e τ ih =>
    obtain ⟨g, hg, he⟩ := hA e List.mem_cons_self
    simp only [length_own_cons, Finset.sum_add_distrib, List.length_cons,
      ih fun e' he' => hA e' (List.mem_cons_of_mem _ he')]
    simp [he, hg]

end Total

-- Only so many goroutines are in a call.
theorem Runs.exists_under_way (run : Runs o τ s) :
    ∃ A : Finset ι, ∀ g, g ∈ A ↔ s.frames g ≠ none := by
  refine run.invariant (I := fun _ s => ∃ A : Finset ι, ∀ g, g ∈ A ↔ s.frames g ≠ none)
    ⟨∅, fun g => by simp [State.first]⟩ ?_
  rintro τ s e s' - ⟨A, hA⟩ hs
  have hput : ∀ {g : ι} {frame : Option (Frame S)}, s'.frames = (s.put g frame).frames →
      ∃ A : Finset ι, ∀ g, g ∈ A ↔ s'.frames g ≠ none := by
    intro g frame hframes
    refine ⟨if frame = none then A.erase g else insert g A, fun g' => ?_⟩
    rw [hframes]
    by_cases hg : g' = g
    · subst hg
      cases frame <;> simp
    · rw [State.put_frames_of_ne _ _ hg, ← hA]
      cases frame <;> simp [hg]
  cases hs with
  | raise => exact ⟨A, hA⟩
  | _ => exact hput rfl

-- However a run goes on, without new calls, it comes to an end, and there all calls have
-- returned and the lock is free.
structure Completes (o : Object S) (bound : Nat) (s : State ι S) : Prop where
  left : ∀ {g f}, s.frames g = some f → f.Within bound
  idle : ∀ {g}, s.frames g = none → s.lk.held g = none
  own : ∀ {τ s'}, Run (Advance o) s τ s' → ∀ g, (own g τ).length ≤ budget bound s g
  ends : ∃ A : Finset ι, (∀ g, g ∈ A ↔ s.frames g ≠ none) ∧
    ∀ {τ s'}, Run (Advance o) s τ s' → τ.length ≤ bound * A.card
  returned : ∀ {τ s'}, Run (Advance o) s τ s' → (∀ e s'', ¬Advance o s' e s'') →
    ∀ g, s'.frames g = none ∧ s'.lk.held g = none
  settles : ∃ τ s', Run (Advance o) s τ s' ∧ ∀ g, s'.frames g = none ∧ s'.lk.held g = none

theorem Runs.advance (run : Runs o τ s) {τ' : List (Event ι S)} (run' : Run (Advance o) s τ' s') :
    Runs o (τ ++ τ') s' := by
  refine run.append ?_
  obtain ⟨t, run'', rfl⟩ := run'.simulates (R := Eq) rfl fun h hs => ⟨_, h ▸ hs.step, rfl⟩
  exact run''

-- A run that goes on as long as it can, or for `k` steps.
theorem exists_advance (o : Object S) (s : State ι S) (k : Nat) :
    ∃ τ' s', Run (Advance o) s τ' s' ∧ (τ'.length = k ∨ ∀ e s'', ¬Advance o s' e s'') := by
  induction k with
  | zero => exact ⟨[], s, .nil, .inl rfl⟩
  | succ k ih =>
    obtain ⟨τ', s', run, hlength | hstuck⟩ := ih
    · by_cases h : ∃ e s'', Advance o s' e s''
      · obtain ⟨e, s'', hs⟩ := h
        exact ⟨_, s'', run.snoc hs, .inl (by simp [hlength])⟩
      · exact ⟨τ', s', run, .inr (by simpa using h)⟩
    · exact ⟨τ', s', run, .inr hstuck⟩

section Completes

variable {γ : Type} {D : Discipline ι S γ}

theorem advance_length_le (hwithin : ∀ {g f}, s.frames g = some f → f.Within bound)
    {A : Finset ι} (hA : ∀ g, g ∈ A ↔ s.frames g ≠ none) {τ' : List (Event ι S)}
    (run : Run (Advance o) s τ' s') : τ'.length ≤ bound * A.card := by
  have hown := own_length_le hwithin run
  have hactors : ∀ e ∈ τ', ∃ g ∈ A, e.actor = some g := by
    intro e he
    obtain ⟨pre, post, rfl⟩ := List.append_of_mem he
    obtain ⟨s₁, s₂, -, hs⟩ := run.at_event
    obtain ⟨g, -, hg, -⟩ := hs.step.less hs.work
    refine ⟨g, (hA g).mpr fun hnone => ?_, hg⟩
    -- who is in no call does nothing
    have hzero : (own g (pre ++ e :: post)).length = 0 := by
      simpa [budget, hnone] using hown g
    rw [List.length_eq_zero_iff] at hzero
    simpa [own, hg] using congrArg (e ∈ ·) hzero
  calc τ'.length
      = ∑ g ∈ A, (own g τ').length := length_eq_sum hactors
    _ ≤ ∑ _g ∈ A, bound := Finset.sum_le_sum fun g hg => by
        have hunder : (s.frames g).isSome := Option.isSome_iff_ne_none.mpr ((hA g).mp hg)
        simpa [budget, hunder] using hown g
    _ = bound * A.card := by rw [Finset.sum_const_nat fun _ _ => rfl, Nat.mul_comm]

theorem Discipline.Kept.returned (hD : D.Kept o) (hreply : ∀ c, Nonempty (S.Reply c))
    (run : Runs o τ s) {τ' : List (Event ι S)} (run' : Run (Advance o) s τ' s')
    (hstuck : ∀ e s'', ¬Advance o s' e s'') (g : ι) :
    s'.frames g = none ∧ s'.lk.held g = none := by
  have hsound := hD.sound (run.advance run')
  have hnone : s'.frames g = none := by
    by_contra hne
    obtain ⟨f, hf⟩ := Option.ne_none_iff_exists'.mp hne
    obtain ⟨e, s'', hs⟩ := hsound.advances hreply hf
    exact hstuck e s'' hs
  exact ⟨hnone, hsound.idle hnone⟩

theorem Discipline.Kept.completes (hD : D.Kept o) (hreply : ∀ c, Nonempty (S.Reply c))
    (hbound : ∀ m, (o.body m).Within bound) (run : Runs o τ s) : Completes o bound s := by
  obtain ⟨A, hA⟩ := run.exists_under_way
  exact {
    left := run.within hbound
    idle := (hD.sound run).idle
    own := own_length_le (run.within hbound)
    ends := ⟨A, hA, advance_length_le (run.within hbound) hA⟩
    returned := hD.returned hreply run
    settles := by
      obtain ⟨τ', s', run', hlength | hstuck⟩ := exists_advance o s (bound * A.card + 1)
      · have := advance_length_le (run.within hbound) hA run'
        omega
      · exact ⟨τ', s', run', hD.returned hreply run run' hstuck⟩ }

end Completes

end Goroutine
