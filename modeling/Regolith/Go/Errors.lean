import Regolith.Ffi.Boundary

-- The errors of the Go binding (`errors.go`).
namespace Regolith.Go

open Ffi

inductive Sentinel where
  | ErrNotFound
  | ErrClosed
  | ErrConflict
  | ErrReadOnly
  | ErrDiscarded
  | ErrInvalidArgument
  | ErrPanic
  | ErrUnexpected
  deriving DecidableEq

-- A sentinel, and the message wrapped around it: empty when it is bare.
structure GoError where
  sentinel : Sentinel
  message : String
  deriving DecidableEq

def GoError.bare (sentinel : Sentinel) : GoError := ⟨sentinel, ""⟩

def Sentinel.text : Sentinel → String
  | .ErrNotFound => "key not found"
  | .ErrClosed => "db closed"
  | .ErrConflict => "transaction conflict"
  | .ErrReadOnly => "read-only transaction"
  | .ErrDiscarded => "transaction already resolved"
  | .ErrInvalidArgument => "invalid argument"
  | .ErrPanic => "panic at the regolith ffi boundary"
  | .ErrUnexpected => "regolith error"

def GoError.Error (err : GoError) : String :=
  if err.message = "" then err.sentinel.text else err.sentinel.text ++ ": " ++ err.message

-- `errors.Is`, for a target that is a sentinel: an error is one, or wraps one.
def GoError.Is (err : GoError) (target : Sentinel) : Prop := err.sentinel = target

-- The codes of the header, and the sentinel that documents each.
def codes : List Status :=
  [OK, NOT_FOUND, DB_CLOSED, TXN_CONFLICT, READ_ONLY_TXN, DISCARDED, INVALID_ARG, PANIC, OTHER]

def sentinels : List (Status × Sentinel) :=
  [(NOT_FOUND, .ErrNotFound), (DB_CLOSED, .ErrClosed), (TXN_CONFLICT, .ErrConflict),
    (READ_ONLY_TXN, .ErrReadOnly), (DISCARDED, .ErrDiscarded), (INVALID_ARG, .ErrInvalidArgument),
    (PANIC, .ErrPanic)]

def sentinelOf (status : Status) : Sentinel := (sentinels.lookup status).getD .ErrUnexpected

def withDetail (sentinel : Sentinel) (message : String) : GoError :=
  if message = "" then .bare sentinel else ⟨sentinel, message⟩

def statusToErr (status : Status) (detail : Option String) : Option GoError :=
  let message := detail.getD ""
  if status = OK then none
  else if status = NOT_FOUND then some (.bare .ErrNotFound)
  else if status = DB_CLOSED then some (.bare .ErrClosed)
  else if status = TXN_CONFLICT then some (.bare .ErrConflict)
  else if status = READ_ONLY_TXN then some (.bare .ErrReadOnly)
  else if status = DISCARDED then some (.bare .ErrDiscarded)
  else if status = INVALID_ARG then some (withDetail .ErrInvalidArgument message)
  else if status = PANIC then some (withDetail .ErrPanic message)
  else some (withDetail .ErrUnexpected message)

theorem statusToErr_eq_none_iff (status : Status) (detail : Option String) :
    statusToErr status detail = none ↔ status = OK := by
  by_cases h : status = OK
  · exact iff_of_true (if_pos h) h
  · refine iff_of_false ?_ h
    unfold statusToErr
    rw [if_neg h]
    repeat' split
    all_goals exact Option.some_ne_none _

@[simp] theorem statusToErr_ok (detail : Option String) : statusToErr OK detail = none :=
  (statusToErr_eq_none_iff OK detail).mpr rfl

-- What an error says of a status that came with a message, or with none.
structure GoError.Says (err : GoError) (status : Status) (message : String) : Prop where
  is : ∀ target, err.Is target ↔ target = sentinelOf status
  text : err.Error =
    (sentinelOf status).text ++ if message = "" then "" else ": " ++ message

theorem withDetail_says {status : Status} {message : String} :
    (withDetail (sentinelOf status) message).Says status message := by
  unfold withDetail
  split_ifs with h
  · exact ⟨fun _ => eq_comm, by simp [GoError.Error, GoError.bare, h]⟩
  · exact ⟨fun _ => eq_comm, by simp [GoError.Error, h, String.append_assoc]⟩

-- A code that is its own message comes with none.
theorem statusToErr_eq {status : Status} {detail : Option String} (h : status ≠ OK)
    (hbare : status ∈ codes → ¬HasDetail status → detail = none) :
    statusToErr status detail = some (withDetail (sentinelOf status) (detail.getD "")) := by
  have bare {code : Status} (heq : status = code) (hcode : code ∈ codes ∧ ¬HasDetail code) :
      some (.bare (sentinelOf code)) =
        some (withDetail (sentinelOf status) (detail.getD "")) := by
    subst heq
    rw [hbare hcode.1 hcode.2]
    rfl
  unfold statusToErr
  rw [if_neg h]
  split
  · next h => exact bare h (by decide)
  split
  · next h => exact bare h (by decide)
  split
  · next h => exact bare h (by decide)
  split
  · next h => exact bare h (by decide)
  split
  · next h => exact bare h (by decide)
  split
  · next h => rw [h]; rfl
  split
  · next h => rw [h]; rfl
  · have hsentinel : sentinelOf status = .ErrUnexpected := by
      simp [sentinelOf, sentinels, List.lookup_cons, beq_false_of_ne, *]
    rw [hsentinel]

theorem statusToErr_says {status : Status} {detail : Option String} (h : status ≠ OK)
    (hbare : status ∈ codes → ¬HasDetail status → detail = none) :
    ∃ err, statusToErr status detail = some err ∧ err.Says status (detail.getD "") :=
  ⟨_, statusToErr_eq h hbare, withDetail_says⟩

theorem of_error_status_ne (error : EngineError) : (Failure.of_error error).status ≠ OK :=
  (Failure.of_error_agrees error).1

end Regolith.Go
