import Regolith.Go.Shared.DB.Theorems
import Regolith.Go.Shared.Txn.Theorems
import Regolith.Library.Progress

-- Every call that goroutines make of a database or of a transaction returns, if those of the
-- FFI do.
namespace Regolith.Go.Shared

open Ffi Goroutine

variable {ι σ : Type} [DecidableEq ι]

namespace DB

theorem reply_nonempty (c : FfiCall) : Nonempty (c.Reply σ) := by
  cases c <;> exact ⟨(⟨OTHER, none, none⟩ : Ffi.Reply _)⟩

theorem body_within (m : Method) : ((object σ).body m).Within 6 := by
  have hcall : ∀ (c : FfiCall) (answer : c.Reply σ → Answer σ),
      (opened (.call c fun reply => .unlock .read (.ret (answer reply)))).Within 6 := by
    rintro c answer (_ | _)
    · exact fun _ => trivial
    · trivial
  cases m with
  | Write b =>
    cases b with
    | none =>
      rintro (_ | _) <;> trivial
    | some batch =>
      by_cases hn : batch.n = 0
      · simp only [object, Write, hn, if_true]
        rintro (_ | _) <;> trivial
      · simp only [object, Write, hn, if_false]
        exact hcall _ _
  | Close =>
    rintro (_ | _)
    · exact fun _ => trivial
    · trivial
  | _ => exact hcall _ _

-- A call under way has at most six steps of its own left, and whatever way it goes, it returns
-- and leaves the lock.
theorem db_calls_return {τ : List (Event ι (signature σ))} {s : State ι (signature σ)}
    (run : Runs (object σ) τ s) : Completes (object σ) 6 s :=
  kept.completes reply_nonempty body_within run

-- A `Close` that waits for a read, and a read that comes then.
theorem db_calls_return_close :
    ∃ s, Runs (object Unit) [.enter 0 (.Has [1]), .lock 0 .read, .enter 1 .Close,
      .access 0 .closed false false, .enter 2 (.Has [2])] s ∧ Completes (object Unit) 6 s := by
  have run : Runs (object Unit) ([] : List (Event Nat (signature Unit))) _ := .nil
  have run := run.snoc (.enter (g := 0) (m := Method.Has [1]) rfl)
  have run := run.snoc (.lock (g := 0) rfl rfl)
  have run := run.snoc (.enter (g := 1) (m := Method.Close) rfl)
  have run := run.snoc (.access (g := 0) rfl)
  have run := run.snoc (.enter (g := 2) (m := Method.Has [2]) rfl)
  exact ⟨_, run, db_calls_return run⟩

end DB

namespace Txn

theorem reply_nonempty (c : Crossing) : Nonempty (c.call.Reply σ) := by
  rcases c with ⟨t, _⟩
  cases ‹FfiCall› <;> exact ⟨(⟨OTHER, none, none⟩ : Ffi.Reply _)⟩

theorem body_within (m : Method) : ((object σ).body m).Within 10 := by
  have hbegin : ∀ (c : FfiCall) (answer : c.Reply σ → Answer σ),
      (begin (cross c fun reply => .unlock .read (.ret (answer reply)))).Within 10 := by
    rintro c answer (_ | _)
    · rintro (_ | _)
      · exact fun _ _ => trivial
      · trivial
    · trivial
  cases m with
  | Commit =>
    rintro (_ | _)
    · rintro (_ | _)
      · exact fun _ _ _ _ => trivial
      · trivial
    · trivial
  | Discard =>
    rintro (_ | _)
    · exact fun _ _ _ _ => trivial
    · trivial
  | _ => exact hbegin _ _

theorem txn_calls_return {τ : List (Event ι (signature σ))} {s : State ι (signature σ)}
    (run : Runs (object σ) τ s) : Completes (object σ) 10 s :=
  kept.completes reply_nonempty body_within run

-- A `Discard` that waits for a read, and the close of the database between.
theorem txn_calls_return_discard :
    ∃ s, Runs (object Unit) [.enter 0 (.Has [1]), .lock 0 .read, .enter 1 .Discard,
      .raise .closed, .access 0 .closed true true] s ∧ Completes (object Unit) 10 s := by
  have run : Runs (object Unit) ([] : List (Event Nat (signature Unit))) _ := .nil
  have run := run.snoc (.enter (g := 0) (m := Method.Has [1]) rfl)
  have run := run.snoc (.lock (g := 0) rfl rfl)
  have run := run.snoc (.enter (g := 1) (m := Method.Discard) rfl)
  have run := run.snoc (.raise (show (object Unit).outside .closed = true from rfl))
  have run := run.snoc (.access (g := 0) rfl)
  exact ⟨_, run, txn_calls_return run⟩

end Txn

end Regolith.Go.Shared
