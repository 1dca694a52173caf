import Regolith.Ffi.Iter.Exhaustion
import Regolith.Ffi.Session

-- What a call leaves behind that is rejected because of its arguments.
namespace Regolith.Ffi

section Rejection

variable {σ : Type} [EntrySource σ]

-- Arguments that no call may come with in this state.
def IterCall.BadArgs (it : RegolithIter σ) : IterCall → Prop
  | .next valid _ => valid = .null
  | .next_batch max_entries out out_len out_count _ =>
      out = .null ∨ out_len = .null ∨ out_count = .null ∨ max_entries = 0
  | .seek target valid _ => in_bytes target = none ∨ valid = .null
  | .reset _ => False
  | .key out out_len _ => out = .null ∨ out_len = .null
  | .value val val_len _ => val = .null ∨ val_len = .null
  | .batch_value idx val val_len _ => val = .null ∨ val_len = .null ∨ it.batch_count ≤ idx

def IterCall.Rejected (it : RegolithIter σ) (call : IterCall) : Prop :=
  (call.run it).1.status = INVALID_ARG ∧ call.BadArgs it

-- The calls that move before they look at where their answer goes.
def IterCall.MovesFirst : IterCall → Prop
  | .next valid _ => valid = .null
  | .seek target valid _ => (in_bytes target).isSome ∧ valid = .null
  | _ => False

-- As it was, and so no later call can tell.
structure RegolithIter.Untouched (it it' : RegolithIter σ) : Prop where
  source : it'.source = it.source
  reset : it'.reset = it.reset
  include_current : it'.include_current = it.include_current
  pending : it'.pending = it.pending
  batch_values : it'.batch_values = it.batch_values
  batch_count : it'.batch_count = it.batch_count
  later : ∀ calls, replies it' calls = replies it calls

variable {it : RegolithIter σ} {call : IterCall}

theorem RegolithIter.untouched_self (it : RegolithIter σ) : it.Untouched it :=
  ⟨rfl, rfl, rfl, rfl, rfl, rfl, fun _ => rfl⟩

-- Every other call checks its arguments first.
theorem IterCall.run_bad (hfirst : ¬call.MovesFirst) (hbad : call.BadArgs it) :
    (call.run it).2 = it := by
  cases call with
  | next valid err => exact absurd hbad hfirst
  | next_batch max_entries out out_len out_count err =>
    exact (RegolithIter.next_batch_rejected hbad err).2
  | seek key valid err =>
    have hkey : in_bytes key = none := by
      rcases hbad with hkey | hvalid
      · exact hkey
      · by_contra hsome
        exact hfirst ⟨Option.isSome_iff_ne_none.mpr hsome, hvalid⟩
    simp only [IterCall.run, regolith_iter_seek, hkey]
  | reset err => exact hbad.elim
  | key key key_len err => rfl
  | value val val_len err => rfl
  | batch_value idx val val_len err => rfl

-- A call that moves first takes a pending reset with it.
theorem IterCall.run_moved (hfirst : call.MovesFirst) : (call.run it).2.reset = false := by
  cases call with
  | next valid err =>
    cases hreset : it.reset with
    | false => simp [IterCall.run, regolith_iter_next, RegolithIter.advance_step hreset,
        RegolithIter.step, hreset]
    | true => simp [IterCall.run, regolith_iter_next, RegolithIter.advance_reset hreset,
        RegolithIter.restart]
  | seek key valid err =>
    obtain ⟨target, hkey⟩ := Option.isSome_iff_exists.mp hfirst.1
    simp [IterCall.run, regolith_iter_seek, hkey, RegolithIter.seek_eq]
  | _ => exact hfirst.elim

end Rejection

-- A new iterator over an empty store, where every move succeeds.
theorem fresh_rejected {call : IterCall} (hfirst : call.MovesFirst) :
    call.Rejected (ListCursor.iter noBad [] ⟨none, none, false, false⟩) := by
  cases call with
  | next valid err =>
    obtain rfl : valid = .null := hfirst
    exact ⟨rfl, rfl⟩
  | seek key valid err =>
    obtain ⟨hkey, rfl⟩ := hfirst
    obtain ⟨target, hkey⟩ := Option.isSome_iff_exists.mp hkey
    refine ⟨?_, .inr rfl⟩
    simp only [IterCall.run, regolith_iter_seek, hkey]
    rfl
  | _ => exact hfirst.elim

-- A rejected call leaves the iterator as it was, in every state that calls and changes to
-- the transaction lead to, unless it moves before it looks.
theorem rejected_untouched_iff (call : IterCall) :
    (∀ {C T S : Type} [OwnedSnapshotIter C] [TxnScanStream S] [OwnedTransaction T S]
      (source : Source C T S) (b : Bounds) (events : List (IterEvent T)),
      let it := events.foldl IterEvent.apply (.from_source source b)
      call.Rejected it → it.Untouched (call.run it).2) ↔ ¬call.MovesFirst := by
  constructor
  · intro h hfirst
    let source : Source (ListCursor noBad) (ListTxn noBad) (ListStream noBad) :=
      .Snapshot (.start noBad (.ofPairs []))
    have huntouched := h source ⟨none, none, false, false⟩ [] (fresh_rejected hfirst)
    have hreset := huntouched.reset
    rw [IterCall.run_moved hfirst] at hreset
    exact Bool.noConfusion hreset
  · intro hfirst C T S _ _ _ source b events it hrejected
    rw [IterCall.run_bad hfirst hrejected.2]
    exact it.untouched_self

-- The entry that a rejected call moved onto is never answered.
theorem rejected_next_skips :
    let it := ListCursor.iter noBad [([1], [10])] ⟨none, none, false, false⟩
    IterCall.Rejected it (.next .null .null) ∧
      ¬it.Untouched (IterCall.run it (.next .null .null)).2 := by
  refine ⟨⟨rfl, rfl⟩, fun h => ?_⟩
  have hreplies := congrArg (·.map IterReply.status)
    (h.later [.next .writable .null, .key .writable .writable .null])
  exact absurd hreplies (by decide)

end Regolith.Ffi
