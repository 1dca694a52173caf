import Regolith.Ffi.Abi.Theorems
import Regolith.Library.Utf8

-- What the header promises of every call that returns a status.
namespace Regolith.Ffi

open Program

def Raised.detail : Raised → Option String
  | .failure f => f.detail
  | .panic payload => some (panic_detail payload)

namespace RegolithError

theorem encode_into_raw (detail : String) :
    Utf8.encode (into_raw detail) = (Utf8.encode detail).filter (· ≠ 0) := by
  unfold into_raw
  rw [Utf8.encode_filter, String.ofList_toList]

-- `C.GoString` finds the end of a message, whatever is in memory behind it.
theorem GoString_into_raw (detail : String) (after : Bytes) :
    Utf8.GoString (Utf8.encode (into_raw detail) ++ 0 :: after) =
      Utf8.encode (into_raw detail) := by
  refine Utf8.GoString_terminated (fun b hb => ?_) after
  rw [encode_into_raw] at hb
  simpa using (List.mem_filter.mp hb).2

end RegolithError

namespace Abi

def DbCall.shape : DbCall → Shape
  | .close | .set _ _ | .delete _ | .write _ | .drop_all => .nothing
  | .get_borrowed _ _ _ _ => .borrowed
  | .has _ _ => .flag
  | .iter _ _ => .iter
  | .txn _ _ => .txn

def TxnCall.shape : TxnCall → Shape
  | .set _ _ | .delete _ | .commit | .discard | .free => .nothing
  | .get_borrowed _ _ _ _ => .borrowed
  | .has _ _ => .flag
  | .iter _ _ => .iter

def IterCall.shape : IterCall → Shape
  | .reset | .close => .nothing
  | .next _ | .seek _ _ => .flag
  | .key _ _ | .value _ _ => .bytes
  | .next_batch _ _ _ _ => .batch
  | .batch_value _ _ _ => .lent

def Call.shape : Call → Shape
  | .regolith_db_open _ _ | .regolith_db_open_with_options _ _ _ => .db
  | .db _ c => c.shape
  | .txn _ c => c.shape
  | .iter _ c => c.shape

-- `guard` on how a body ended, with what it had written by then.
structure Promised (shape : Shape) (outcome : Except Raised Unit) (writes : List Write)
    (err : OutParam) : Prop where
  ok : (guard err outcome).status = OK ↔ outcome = .ok ()
  detail : err = .writable →
    ((guard err outcome).err.isSome ↔ HasDetail (guard err outcome).status)
  message : ∀ message ∈ (guard err outcome).err, ∃ raised detail,
    outcome = .error raised ∧ raised.detail = some detail ∧
      Utf8.encode message = (Utf8.encode detail).filter (· ≠ 0) ∧
      ∀ after, Utf8.GoString (Utf8.encode message ++ 0 :: after) = Utf8.encode message
  null : (guard .null outcome).status = (guard err outcome).status
  written : (guard err outcome).status = OK → shape.Holds writes
  unwritten : (guard err outcome).status ≠ OK → writes = []

theorem guard_status_ne {raised : Raised} (h : raised.Agrees) (err : OutParam) :
    (guard err (.error raised : Except Raised Unit)).status ≠ OK := by
  cases raised with
  | failure failure => exact h.1
  | panic payload => simp [guard, PANIC, OK]

theorem promised_of_agreeing {shape : Shape} {outcome : Except Raised Unit}
    {writes : List Write} (h : Agreeing outcome) (hwrote : Wrote shape outcome [] writes)
    (err : OutParam) : Promised shape outcome writes err := by
  cases outcome with
  | ok _ =>
    obtain ⟨new, hnew, rfl⟩ := hwrote
    refine ⟨by simp, ?_, ?_, rfl, fun _ => hnew, fun h => absurd rfl h⟩
    · rintro rfl
      simp [guard, HasDetail, OK, INVALID_ARG, PANIC, OTHER]
    · cases err <;> simp [guard]
  | error raised =>
    have hstatus := guard_status_ne h err
    refine ⟨by simp [hstatus], ?_, ?_, ?_, fun h => absurd h hstatus, fun _ => hwrote⟩
    · rintro rfl
      cases raised with
      | failure failure => simpa [guard] using h.2
      | panic payload => simp [guard, HasDetail]
    · intro message hmessage
      refine ⟨raised, ?_⟩
      cases err with
      | null => cases raised <;> simp [guard] at hmessage
      | writable =>
        cases raised with
        | failure failure =>
          obtain ⟨detail, hdetail, rfl⟩ := Option.mem_map.mp hmessage
          exact ⟨detail, rfl, hdetail, RegolithError.encode_into_raw detail,
            RegolithError.GoString_into_raw detail⟩
        | panic payload =>
          obtain rfl : RegolithError.into_raw (panic_detail payload) = message :=
            Option.some.inj hmessage
          exact ⟨_, rfl, rfl, RegolithError.encode_into_raw _, RegolithError.GoString_into_raw _⟩
    · cases raised <;> rfl

def written (τ : List (Exchange interface)) : List Write := τ.foldl note []

section Calls

variable {σ : Type} {I : σ → Prop} {shape : Shape}

-- How any run of a body ends.
theorem Clean.ends {body : Body σ Unit} (h : Clean I shape body) {s s' : σ} (hs : I s)
    {τ : List (Exchange interface)} {outcome : Except Raised Unit}
    (run : Yields (body.run.run s) τ (outcome, s')) :
    I s' ∧ Agreeing outcome ∧ Wrote shape outcome [] (written τ) := by
  have hend : swp writing body
      (fun result s' ws => I s' ∧ Agreeing result ∧ Wrote shape result [] ws) s [] :=
    h hs fun _ _ _ hs' hresult hwrote => ⟨hs', hresult, hwrote⟩
  exact run.noted hend

theorem Clean.on {body : Body σ Unit} (h : Clean I shape body) {s : σ} (hs : I s)
    {Q : Except Raised Unit → List Write → Prop}
    (hQ : ∀ outcome ws, Agreeing outcome → Wrote shape outcome [] ws → Q outcome ws) :
    wp writing (Body.on body s) Q [] := by
  unfold Body.on
  rw [wp_bind]
  exact h hs fun result s' ws' _ hresult hwrote => hQ _ _ hresult hwrote

theorem DbCall.clean (c : DbCall) : Clean (fun _ => True) c.shape c.body := by
  cases c with
  | close => exact regolith_db_close_quiet.clean
  | get_borrowed key val val_len value_handle =>
    exact regolith_db_get_borrowed_clean key val val_len value_handle
  | has key found => exact regolith_db_has_clean key found
  | set key value => exact (regolith_db_set_quiet key value).clean
  | delete key => exact (regolith_db_delete_quiet key).clean
  | write ops => exact (regolith_db_write_quiet ops).clean
  | drop_all => exact regolith_db_drop_all_quiet.clean
  | iter opts out => exact regolith_db_iter_clean opts out
  | txn readonly out => exact regolith_db_txn_clean readonly out

theorem TxnCall.clean (c : TxnCall) : Clean Any c.shape c.body := by
  cases c with
  | get_borrowed key val val_len value_handle =>
    exact regolith_txn_get_borrowed_clean key val val_len value_handle
  | has key found => exact regolith_txn_has_clean key found
  | set key value => exact (regolith_txn_set_quiet key value).clean
  | delete key => exact (regolith_txn_delete_quiet key).clean
  | iter opts out => exact regolith_txn_iter_clean opts out
  | commit => exact regolith_txn_commit_quiet.clean
  | discard => exact regolith_txn_discard_quiet.clean
  | free => exact regolith_txn_free_quiet.clean

theorem IterCall.clean (c : IterCall) : Clean Iter.Consistent c.shape c.body := by
  cases c with
  | next valid => exact regolith_iter_next_clean valid
  | seek target valid => exact regolith_iter_seek_clean target valid
  | reset => exact regolith_iter_reset_quiet.clean
  | key out out_len => exact regolith_iter_key_clean out out_len
  | value out out_len => exact regolith_iter_value_clean out out_len
  | next_batch max_entries out out_len out_count =>
    exact regolith_iter_next_batch_clean max_entries out out_len out_count
  | batch_value idx val val_len => exact regolith_iter_batch_value_clean idx val val_len
  | close => exact regolith_iter_close_quiet.clean

-- By the calls made: a batch that ends early holds back a failure that agrees.
theorem Iter.Reached.consistent {it : Iter} (h : it.Reached) : it.Consistent := by
  induction h with
  | opened source bounds => exact fun _ => nofun
  | @called it it' c τ result _ run ih => exact (c.clean.ends ih run).1
  | shared _ ih => exact ih

theorem Call.ends (c : Call) {Q : Except Raised Unit → List Write → Prop}
    (hQ : ∀ outcome ws, Agreeing outcome → Wrote c.shape outcome [] ws → Q outcome ws) :
    wp writing c.body Q [] := by
  match c with
  | .regolith_db_open path out =>
    exact (regolith_db_open_with_options_clean path none out).on (I := fun _ => True) trivial hQ
  | .regolith_db_open_with_options path opts out =>
    exact (regolith_db_open_with_options_clean path opts out).on (I := fun _ => True) trivial hQ
  | .db none _ => exact hQ _ _ (Failure.invalid_arg_agrees _) rfl
  | .db (some ()) c => exact c.clean.on trivial hQ
  | .txn none _ => exact hQ _ _ (Failure.invalid_arg_agrees _) rfl
  | .txn (some inner) c => exact c.clean.on trivial hQ
  | .iter none _ => exact hQ _ _ (Failure.invalid_arg_agrees _) rfl
  | .iter (some it) c => exact c.clean.on it.property.consistent hQ

-- Whatever the engine replies, and whichever of its calls panics.
theorem Call.promised (c : Call) {τ : List (Exchange interface)} {outcome : Except Raised Unit}
    (run : Yields c.body τ outcome) (err : OutParam) :
    Promised c.shape outcome (written τ) err :=
  run.noted (c.ends fun _ _ h hwrote => promised_of_agreeing h hwrote err)

end Calls

end Abi

end Regolith.Ffi
