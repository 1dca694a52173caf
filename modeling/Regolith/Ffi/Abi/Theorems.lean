import Regolith.Ffi.Abi.Iter
import Regolith.Ffi.Iter.Framing

-- The status and the detail of every entry point agree, and a failure leaves the out-params.
namespace Regolith.Ffi

-- Options are only ever refused as an invalid argument.
section Options

variable {R α β : Type}

def Rejects (result : Except Failure α) : Prop :=
  ∀ ⦃failure⦄, result = .error failure → failure.Agrees

theorem rejects_ok (value : α) : Rejects (.ok value) := fun _ h => nomatch h

theorem rejects_invalid_arg (detail : String) :
    Rejects (.error (.invalid_arg detail) : Except Failure α) := by
  rintro failure ⟨rfl⟩
  exact Failure.invalid_arg_agrees detail

theorem Rejects.bind {result : Except Failure α} {f : α → Except Failure β}
    (h : Rejects result) (hf : ∀ value, Rejects (f value)) : Rejects (result >>= f) := by
  cases result with
  | ok value => exact hf value
  | error failure =>
    rintro _ ⟨rfl⟩
    exact h rfl

theorem as_usize_rejects (name : String) (value : UInt64) : Rejects (as_usize name value) := by
  unfold as_usize
  split_ifs
  · exact rejects_ok _
  · exact rejects_invalid_arg _

theorem match_enum_rejects (arms : List (UInt32 × α)) (other : UInt32) (detail : String) :
    Rejects (match_enum arms other detail) := by
  unfold match_enum
  split
  · exact rejects_ok _
  · exact rejects_invalid_arg _

theorem if_present_rejects {opts : RegolithOptions} {bit : UInt64} {value : Except Failure α}
    {set : α → ResolvedOptions R → ResolvedOptions R} {resolved : ResolvedOptions R}
    (h : Rejects value) : Rejects (if_present opts bit value set resolved) := by
  unfold if_present
  split_ifs
  · cases value with
    | ok value => exact rejects_ok _
    | error failure =>
      rintro _ ⟨rfl⟩
      exact h rfl
  · exact rejects_ok _

theorem options_from_rejects (defaults : ResolvedOptions R) (opts : Option RegolithOptions) :
    Rejects (options_from defaults opts) := by
  unfold options_from
  split
  · exact rejects_ok _
  · dsimp only
    split_ifs
    · exact rejects_invalid_arg _
    · refine (if_present_rejects (as_usize_rejects _ _)).bind fun _ => ?_
      refine (if_present_rejects (as_usize_rejects _ _)).bind fun _ => ?_
      refine (if_present_rejects (as_usize_rejects _ _)).bind fun _ => ?_
      refine (if_present_rejects (as_usize_rejects _ _)).bind fun _ => ?_
      refine (if_present_rejects (match_enum_rejects _ _ _)).bind fun _ => ?_
      refine (if_present_rejects (match_enum_rejects _ _ _)).bind fun _ => ?_
      exact if_present_rejects (match_enum_rejects _ _ _)

end Options

namespace Abi

open Program

def note (ws : List Write) : Exchange interface → List Write
  | ⟨.write w, _⟩ => ws ++ [w]
  | _ => ws

-- The ghost state is what has been written.
def writing : Spec interface (List Write) := noting note

-- What a call leaves in its out-params, if it succeeds.
inductive Shape where
  | nothing
  | flag
  | db
  | txn
  | iter
  | bytes
  | borrowed
  | batch
  | lent

def Shape.Holds : Shape → List Write → Prop
  | .nothing, ws => ws = []
  | .flag, ws => ∃ value, ws = [.flag value]
  | .db, ws => ws = [.db]
  | .txn, ws => ∃ inner, ws = [.txn inner]
  | .iter, ws => ∃ it, ws = [.iter it]
  | .bytes, ws => ∃ bytes : Bytes, ws = [.ptr (some bytes), .len bytes.length]
  | .borrowed, ws => ∃ slice : Option Bytes, slice ≠ some [] ∧
      ws = [.ptr slice, .len (slice.getD []).length, .value_handle slice]
  | .batch, ws => ∃ keys : List Bytes, (∀ key ∈ keys, Recordable key) ∧
      ws = [.count keys.length, .ptr (some (PrefixCode.pack key_record keys)),
        .len (PrefixCode.pack key_record keys).length]
  | .lent, ws => ∃ value : Option Bytes, ws = [.ptr value, .len (value.getD []).length]

def Wrote {α : Type} (shape : Shape) : Except Raised α → List Write → List Write → Prop
  | .ok _, ws, ws' => ∃ new, shape.Holds new ∧ ws' = ws ++ new
  | .error _, ws, ws' => ws' = ws

def Agreeing {α : Type} : Except Raised α → Prop
  | .ok _ => True
  | .error raised => raised.Agrees

section Rules

variable {σ α β ε : Type} {I : σ → Prop} {P : α → Prop} {R : β → Prop} {shape : Shape}

-- Writes nothing, keeps `I`, and returns what is as `P` has it or fails with a status and
-- detail that agree.
def Gives (I : σ → Prop) (P : α → Prop) (p : Body σ α) : Prop :=
  ∀ ⦃Q : Except Raised α → σ → List Write → Prop⦄ ⦃s ws⦄, I s →
    (∀ result s', I s' → Agreeing result → (∀ a, result = .ok a → P a) → Q result s' ws) →
    swp writing p Q s ws

-- The same, whatever is returned.
abbrev Quiet (I : σ → Prop) (p : Body σ α) : Prop := Gives I (fun _ => True) p

-- The same, but for what is written where it does not fail.
def Clean (I : σ → Prop) (shape : Shape) (p : Body σ α) : Prop :=
  ∀ ⦃Q : Except Raised α → σ → List Write → Prop⦄ ⦃s ws⦄, I s →
    (∀ result s' ws', I s' → Agreeing result → Wrote shape result ws ws' → Q result s' ws') →
    swp writing p Q s ws

theorem Gives.clean {p : Body σ α} (h : Gives I P p) : Clean I .nothing p := by
  intro Q s ws hs hQ
  refine h hs fun result s' hs' hresult _ => hQ result s' ws hs' hresult ?_
  cases result with
  | ok value => exact ⟨[], rfl, (List.append_nil ws).symm⟩
  | error raised => rfl

theorem clean_err {failure : Failure} (h : failure.Agrees) :
    Clean I shape (Err failure : Body σ α) := fun _ _ _ hs hQ => hQ _ _ _ hs h rfl

theorem gives_pure {value : α} (h : P value) : Gives I P (pure value) :=
  fun _ _ _ hs hQ => hQ _ _ hs trivial fun _ ha => Except.ok.inj ha ▸ h

theorem quiet_pure (value : α) : Quiet I (pure value) := gives_pure trivial

theorem gives_throw {raised : Raised} (h : raised.Agrees) :
    Gives I P (throw raised : Body σ α) := fun _ _ _ hs hQ => hQ _ _ hs h nofun

theorem gives_err {failure : Failure} (h : failure.Agrees) : Gives I P (Err failure : Body σ α) :=
  gives_throw h

theorem quiet_panic (message : String) : Quiet I (panic message : Body σ α) :=
  gives_throw trivial

theorem Gives.mono {P' : α → Prop} {p : Body σ α} (h : Gives I P p) (hP : ∀ a, P a → P' a) :
    Gives I P' p :=
  fun _ _ _ hs hQ => h hs fun result s' hs' hresult hvalue =>
    hQ result s' hs' hresult fun a ha => hP a (hvalue a ha)

theorem Gives.bind {p : Body σ α} {f : α → Body σ β} (hp : Gives I P p)
    (hf : ∀ a, Gives I R (f a)) : Gives I R (p >>= f) := by
  intro Q s ws hs hQ
  rw [swp_bind]
  refine hp hs fun result s' hs' hresult _ => ?_
  cases result with
  | ok value => exact hf value hs' hQ
  | error raised => exact hQ _ _ hs' hresult nofun

theorem Gives.then_clean {p : Body σ α} {f : α → Body σ β} (hp : Gives I P p)
    (hf : ∀ a, P a → Clean I shape (f a)) : Clean I shape (p >>= f) := by
  intro Q s ws hs hQ
  rw [swp_bind]
  refine hp hs fun result s' hs' hresult hvalue => ?_
  cases result with
  | ok value => exact hf value (hvalue value rfl) hs' hQ
  | error raised => exact hQ _ _ _ hs' hresult rfl

theorem Gives.bind_clean {p : Body σ α} {f : α → Body σ β} (hp : Gives I P p)
    (hf : ∀ a, Clean I shape (f a)) : Clean I shape (p >>= f) := hp.then_clean fun a _ => hf a

theorem quiet_get {f : σ → Body σ β} (hf : ∀ s, I s → Quiet I (f s)) : Quiet I (get >>= f) := by
  intro Q s ws hs hQ
  rw [swp_bind, swp_get]
  exact hf s hs hs hQ

theorem clean_get {f : σ → Body σ β} (hf : ∀ s, I s → Clean I shape (f s)) :
    Clean I shape (get >>= f) := by
  intro Q s ws hs hQ
  rw [swp_bind, swp_get]
  exact hf s hs hs hQ

theorem quiet_set {s : σ} (hs : I s) : Quiet I (set s : Body σ Unit) :=
  fun _ _ _ _ hQ => hQ _ _ hs trivial fun _ _ => trivial

theorem quiet_modify {f : σ → σ} (hf : ∀ s, I s → I (f s)) : Quiet I (modify f : Body σ Unit) :=
  fun _ s _ hs hQ => hQ _ _ (hf s hs) trivial fun _ _ => trivial

theorem quiet_engine (c : EngineCall) : Quiet I (engine c : Body σ c.Reply) := by
  intro Q s ws hs hQ
  unfold engine
  rw [swp_bind]
  intro reply
  cases reply with
  | ok value => exact hQ _ _ hs trivial fun _ _ => trivial
  | error payload => exact hQ _ _ hs trivial nofun

theorem quiet_checked {convert : ε → Failure} {result : Except ε α}
    (h : ∀ {error}, result = .error error → (convert error).Agrees) :
    Quiet I (checked convert result : Body σ α) := by
  cases result with
  | ok value => exact quiet_pure value
  | error error => exact gives_err (h rfl)

theorem gives_attempt {p : Body σ α} {f : Except Failure α → Body σ β} (hp : Gives I P p)
    (hok : ∀ value, Gives I R (f (.ok value)))
    (herror : ∀ failure, failure.Agrees → Gives I R (f (.error failure))) :
    Gives I R (attempt p >>= f) := by
  intro Q s ws hs hQ
  unfold attempt
  rw [swp_bind, swp_followed]
  refine hp hs fun result s' hs' hresult _ => ?_
  match result with
  | .ok value => exact hok value hs' hQ
  | .error (.failure failure) => exact herror failure hresult hs' hQ
  | .error (.panic payload) => exact hQ _ _ hs' trivial nofun

theorem quiet_dropping {p : Body σ α} (hp : Quiet I p) : Quiet I (dropping p) := by
  refine gives_attempt hp (fun value => ?_) fun failure hfailure => ?_
  · exact (quiet_engine .drop).bind fun _ => quiet_pure value
  · exact (quiet_engine .drop).bind fun _ => gives_err hfailure

theorem gives_if {p : Prop} [Decidable p] {yes no : Body σ α} (hyes : Gives I P yes)
    (hno : Gives I P no) : Gives I P (if p then yes else no) := by
  split_ifs
  · exact hyes
  · exact hno

theorem clean_if {p : Prop} [Decidable p] {yes no : Body σ α} (hyes : Clean I shape yes)
    (hno : Clean I shape no) : Clean I shape (if p then yes else no) := by
  split_ifs
  · exact hyes
  · exact hno

-- Writes `new`, and cannot fail.
def Writes (new : List Write) (p : Body σ Unit) : Prop :=
  ∀ ⦃Q : Except Raised Unit → σ → List Write → Prop⦄ ⦃s ws⦄,
    Q (.ok ()) s (ws ++ new) → swp writing p Q s ws

theorem writes_write (w : Write) : Writes [w] (write w : Body σ Unit) := fun _ _ _ hQ _ => hQ

theorem Writes.bind {new new' : List Write} {p : Body σ Unit} {f : Unit → Body σ Unit}
    (hp : Writes new p) (hf : Writes new' (f ())) : Writes (new ++ new') (p >>= f) := by
  intro Q s ws hQ
  rw [swp_bind]
  refine hp (hf ?_)
  rwa [List.append_assoc]

theorem Writes.clean {new : List Write} {p : Body σ Unit} (h : Writes new p)
    (hnew : shape.Holds new) : Clean I shape p :=
  fun _ _ _ hs hQ => h (hQ _ _ _ hs trivial ⟨new, hnew, rfl⟩)

-- What a body checks before it goes on.
theorem quiet_unless {p : Prop} [Decidable p] {failure : Failure} {f : Unit → Body σ α}
    (h : failure.Agrees) (hf : Quiet I (f ())) :
    Quiet I (if p then Err failure >>= f else f ()) :=
  gives_if (Gives.bind (P := fun _ => True) (gives_err h) fun _ => hf) hf

theorem clean_unless {p : Prop} [Decidable p] {failure : Failure} {f : Unit → Body σ α}
    (h : failure.Agrees) (hf : ¬p → Clean I shape (f ())) :
    Clean I shape (if p then Err failure >>= f else f ()) := by
  split_ifs with hp
  · exact clean_err h
  · exact hf hp

theorem out_bool_clean (value : Bool) (out : OutParam) :
    Clean I .flag (out_bool value out : Body σ Unit) := by
  unfold out_bool
  refine clean_unless (Failure.invalid_arg_agrees _) fun _ => ?_
  exact (writes_write _).clean ⟨value, rfl⟩

theorem out_bytes_writes (bytes : Bytes) {out_ptr out_len : OutParam} (hptr : out_ptr ≠ .null)
    (hlen : out_len ≠ .null) :
    Writes [.ptr (some bytes), .len bytes.length]
      (out_bytes bytes out_ptr out_len : Body σ Unit) := by
  unfold out_bytes
  rw [if_neg (by simp [hptr, hlen])]
  exact (writes_write _).bind (writes_write _)

theorem out_bytes_clean (bytes : Bytes) (out_ptr out_len : OutParam) :
    Clean I .bytes (out_bytes bytes out_ptr out_len : Body σ Unit) := by
  unfold out_bytes
  refine clean_unless (Failure.invalid_arg_agrees _) fun _ => ?_
  exact ((writes_write _).bind (writes_write _)).clean ⟨bytes, rfl⟩

theorem out_borrowed_clean (slice : Bytes) (out_ptr out_len out_handle : OutParam) :
    Clean I .borrowed (out_borrowed slice out_ptr out_len out_handle : Body σ Unit) := by
  have hwrites (w₁ w₂ w₃ : Write) :
      Writes [w₁, w₂, w₃] (do write w₁; write w₂; write w₃ : Body σ Unit) :=
    (writes_write w₁).bind ((writes_write w₂).bind (writes_write w₃))
  unfold out_borrowed
  refine clean_if ?_ ?_
  · exact (quiet_engine .drop).bind_clean fun _ => clean_err (Failure.invalid_arg_agrees _)
  · refine (quiet_engine .view).bind_clean fun _ => ?_
    split_ifs with hempty
    · exact (hwrites _ _ _).clean ⟨none, by simp, rfl⟩
    · exact (hwrites _ _ _).clean ⟨some slice, by simpa using hempty, rfl⟩

theorem quiet_with_txn {inner : TxnInner Unit} {body : Body σ α} (h : Quiet I body) :
    Quiet I (with_txn inner body) := by
  unfold with_txn
  refine gives_if (gives_err (Failure.other_agrees _)) ?_
  split
  · exact h
  · exact gives_err Failure.discarded_agrees

end Rules

section Db

variable {I : Unit → Prop}

theorem regolith_db_open_with_options_clean (path : InBytes) (opts : Option RegolithOptions)
    (out : OutParam) : Clean I .db (regolith_db_open_with_options path opts out) := by
  unfold regolith_db_open_with_options
  refine clean_unless (Failure.invalid_arg_agrees _) fun _ => ?_
  split
  · split
    · refine (quiet_engine _).bind_clean fun defaults => ?_
      refine (quiet_checked fun h => options_from_rejects _ _ h).bind_clean fun options => ?_
      refine (quiet_engine _).bind_clean fun result => ?_
      refine (quiet_checked fun _ => Failure.of_error_agrees _).bind_clean fun _ => ?_
      refine (quiet_engine _).bind_clean fun _ => ?_
      exact (writes_write _).clean rfl
    · exact clean_err (Failure.invalid_arg_agrees _)
  · exact clean_err (Failure.invalid_arg_agrees _)

-- A call of the engine that returns nothing, with its error converted.
theorem quiet_call {σ ε : Type} {I : σ → Prop} {p : Body σ (Except ε Unit)}
    {convert : ε → Failure} (hp : Quiet I p) (h : ∀ error, (convert error).Agrees) :
    Quiet I (p >>= fun result => checked convert result) :=
  hp.bind fun _ => quiet_checked fun _ => h _

theorem regolith_db_close_quiet : Quiet I regolith_db_close :=
  quiet_dropping (quiet_call (quiet_engine .close) Failure.of_error_agrees)

theorem regolith_db_get_borrowed_clean (key : InBytes) (val val_len value_handle : OutParam) :
    Clean I .borrowed (regolith_db_get_borrowed key val val_len value_handle) := by
  unfold regolith_db_get_borrowed
  split
  · refine (quiet_engine _).bind_clean fun result => ?_
    refine (quiet_checked fun _ => Failure.of_error_agrees _).bind_clean fun slice => ?_
    split
    · exact out_borrowed_clean _ _ _ _
    · exact clean_err Failure.not_found_agrees
  · exact clean_err (Failure.invalid_arg_agrees _)

theorem regolith_db_has_clean (key : InBytes) (found : OutParam) :
    Clean I .flag (regolith_db_has key found) := by
  unfold regolith_db_has
  split
  · refine (quiet_engine _).bind_clean fun result => ?_
    refine (quiet_checked fun _ => Failure.of_error_agrees _).bind_clean fun value => ?_
    exact out_bool_clean _ _
  · exact clean_err (Failure.invalid_arg_agrees _)

theorem regolith_db_set_quiet (key value : InBytes) : Quiet I (regolith_db_set key value) := by
  unfold regolith_db_set
  split
  · exact quiet_call (quiet_engine (.put _ _)) Failure.of_error_agrees
  · exact gives_err (Failure.invalid_arg_agrees _)

theorem regolith_db_delete_quiet (key : InBytes) : Quiet I (regolith_db_delete key) := by
  unfold regolith_db_delete
  split
  · exact quiet_call (quiet_engine (.delete _)) Failure.of_error_agrees
  · exact gives_err (Failure.invalid_arg_agrees _)

theorem regolith_db_write_quiet (ops : InBytes) : Quiet I (regolith_db_write ops) := by
  unfold regolith_db_write
  split
  · refine (quiet_engine (.fill _)).bind fun _ => ?_
    refine (quiet_checked fun _ => Failure.invalid_arg_agrees _).bind fun batch => ?_
    exact quiet_call (quiet_engine (.write batch)) Failure.of_error_agrees
  · exact gives_err (Failure.invalid_arg_agrees _)

theorem regolith_db_drop_all_quiet : Quiet I regolith_db_drop_all :=
  quiet_call (quiet_engine .drop_all) Failure.of_error_agrees

theorem regolith_db_iter_clean (opts : Option RegolithIterOptions) (out : OutParam) :
    Clean I .iter (regolith_db_iter opts out) := by
  unfold regolith_db_iter
  refine clean_unless (Failure.invalid_arg_agrees _) fun _ => ?_
  exact (quiet_engine _).bind_clean fun _ => (writes_write _).clean ⟨_, rfl⟩

theorem regolith_db_txn_clean (readonly : UInt8) (out : OutParam) :
    Clean I .txn (regolith_db_txn readonly out) := by
  unfold regolith_db_txn
  refine clean_unless (Failure.invalid_arg_agrees _) fun _ => ?_
  refine (quiet_engine _).bind_clean fun _ => ?_
  exact (quiet_engine _).bind_clean fun _ => (writes_write _).clean ⟨_, rfl⟩

end Db

section Txn

theorem take_agrees {inner : TxnInner Unit} {raised : Raised}
    (h : inner.take.1 = .error raised) : raised.Agrees := by
  unfold TxnInner.take at h
  dsimp only at h
  split at h
  · cases h
    exact Failure.other_agrees _
  · cases h
  · cases h
    exact Failure.discarded_agrees
  · cases h
    trivial

-- Nothing is asked of the body of a transaction.
abbrev Any (_ : TxnInner Unit) : Prop := True

theorem quiet_take : Quiet Any take := by
  unfold take
  refine quiet_get fun inner _ => (quiet_set trivial).bind fun _ => ?_
  split
  · exact quiet_pure _
  · next raised h => exact gives_throw (take_agrees h)

theorem regolith_txn_get_borrowed_clean (key : InBytes) (val val_len value_handle : OutParam) :
    Clean Any .borrowed (regolith_txn_get_borrowed key val val_len value_handle) := by
  unfold regolith_txn_get_borrowed
  split
  · refine clean_get fun inner _ => ?_
    refine (quiet_with_txn (quiet_engine _)).bind_clean fun result => ?_
    refine (quiet_checked fun _ => Failure.of_op_error_agrees _).bind_clean fun slice => ?_
    split
    · exact out_borrowed_clean _ _ _ _
    · exact clean_err Failure.not_found_agrees
  · exact clean_err (Failure.invalid_arg_agrees _)

theorem regolith_txn_has_clean (key : InBytes) (found : OutParam) :
    Clean Any .flag (regolith_txn_has key found) := by
  unfold regolith_txn_has
  split
  · refine clean_get fun inner _ => ?_
    have hbody (key : Bytes) : Quiet Any (do
        let result ← engine (.txn_get_slice key)
        engine .drop
        pure result : Body (TxnInner Unit) _) :=
      (quiet_engine _).bind fun result => (quiet_engine .drop).bind fun _ => quiet_pure result
    refine (quiet_with_txn (hbody _)).bind_clean fun result => ?_
    refine (quiet_checked fun _ => Failure.of_op_error_agrees _).bind_clean fun value => ?_
    exact out_bool_clean _ _
  · exact clean_err (Failure.invalid_arg_agrees _)

theorem regolith_txn_set_quiet (key value : InBytes) : Quiet Any (regolith_txn_set key value) := by
  unfold regolith_txn_set
  refine quiet_get fun inner _ => quiet_unless Failure.read_only_agrees ?_
  split
  · refine quiet_get fun inner _ => ?_
    exact quiet_call (quiet_with_txn (quiet_engine (.txn_put _ _))) Failure.of_op_error_agrees
  · exact gives_err (Failure.invalid_arg_agrees _)

theorem regolith_txn_delete_quiet (key : InBytes) : Quiet Any (regolith_txn_delete key) := by
  unfold regolith_txn_delete
  refine quiet_get fun inner _ => quiet_unless Failure.read_only_agrees ?_
  split
  · refine quiet_get fun inner _ => ?_
    exact quiet_call (quiet_with_txn (quiet_engine (.txn_delete _))) Failure.of_op_error_agrees
  · exact gives_err (Failure.invalid_arg_agrees _)

theorem regolith_txn_iter_clean (opts : Option RegolithIterOptions) (out : OutParam) :
    Clean Any .iter (regolith_txn_iter opts out) := by
  unfold regolith_txn_iter
  refine clean_unless (Failure.invalid_arg_agrees _) fun _ => clean_get fun inner _ => ?_
  exact (quiet_with_txn (quiet_pure ())).bind_clean fun _ => (writes_write _).clean ⟨_, rfl⟩

theorem regolith_txn_commit_quiet : Quiet Any regolith_txn_commit := by
  refine quiet_dropping (quiet_take.bind fun _ => ?_)
  exact quiet_call (quiet_engine .commit) Failure.of_transaction_error_agrees

theorem regolith_txn_discard_quiet : Quiet Any regolith_txn_discard := by
  refine gives_attempt quiet_take (fun _ => quiet_engine .rollback) fun failure h => ?_
  exact gives_if (quiet_pure _) (gives_err h)

theorem regolith_txn_free_quiet : Quiet Any regolith_txn_free := by
  refine quiet_dropping (gives_attempt quiet_take (fun _ => ?_) fun _ _ => ?_)
  · exact quiet_engine .rollback
  · exact quiet_pure _

end Txn

section Iter

-- A failure that is held back is as one that is reported at once.
def Iter.Consistent (it : Iter) : Prop := ∀ ⦃failure⦄, it.pending = some failure → failure.Agrees

open Iter

theorem quiet_set_source (source : Source Unit Unit Unit) : Quiet Consistent (set_source source) :=
  quiet_modify fun _ h => h

theorem in_range_quiet : Quiet Consistent in_range := by
  refine quiet_get fun it _ => ?_
  split
  · refine (quiet_engine _).bind fun key => ?_
    split <;> exact quiet_pure _
  · exact quiet_pure _

theorem cursor_valid_quiet : Quiet Consistent cursor_valid := by
  refine quiet_get fun it _ => ?_
  split
  · exact quiet_panic _
  · refine (quiet_engine _).bind fun valid => gives_if in_range_quiet ?_
    refine (quiet_engine _).bind fun status => ?_
    exact (quiet_checked fun _ => Failure.of_error_agrees _).bind fun _ => quiet_pure _

theorem pull_quiet : Quiet Consistent pull := by
  refine quiet_get fun it _ => ?_
  split
  · exact quiet_panic _
  · refine (quiet_set_source _).bind fun _ => ?_
    exact (quiet_engine .drop).bind fun _ => quiet_pure _
  · refine (quiet_engine _).bind fun entry => ?_
    split
    · refine (quiet_set_source _).bind fun _ => ?_
      exact (quiet_engine .drop).bind fun _ => quiet_pure _
    · refine (quiet_engine _).bind fun status => (quiet_set_source _).bind fun _ => ?_
      refine (quiet_engine .drop).bind fun _ => ?_
      exact (quiet_checked fun _ => Failure.of_error_agrees _).bind fun _ => quiet_pure _

theorem rebuild_quiet (start end_ : Option Bytes) : Quiet Consistent (rebuild start end_) := by
  refine quiet_get fun it _ => ?_
  split
  · exact quiet_panic _
  · refine (quiet_set_source _).bind fun _ => (quiet_engine .drop).bind fun _ => ?_
    exact (quiet_with_txn (quiet_engine _)).bind fun _ => quiet_set_source _

theorem restart_cursor_quiet (b : Bounds) : Quiet Consistent (restart_cursor b) := by
  refine gives_if ?_ ?_
  · split
    · refine (quiet_engine _).bind fun _ => (quiet_engine _).bind fun valid => ?_
      refine gives_if ((quiet_engine _).bind fun key => ?_) (quiet_pure _)
      exact gives_if (quiet_engine .prev) (quiet_pure _)
    · exact quiet_engine .seek_to_last
  · split
    · exact quiet_engine (.seek _)
    · exact quiet_engine .seek_to_first

theorem restart_quiet : Quiet Consistent restart := by
  refine quiet_get fun it _ => ?_
  split
  · exact (rebuild_quiet _ _).bind fun _ => pull_quiet
  · exact (restart_cursor_quiet _).bind fun _ => cursor_valid_quiet

theorem step_quiet : Quiet Consistent step := by
  refine quiet_get fun it _ => ?_
  split
  · exact pull_quiet
  · refine in_range_quiet.bind fun _ => gives_if (gives_if ?_ ?_) (quiet_pure _)
    · exact (quiet_engine .prev).bind fun _ => cursor_valid_quiet
    · exact (quiet_engine .next).bind fun _ => cursor_valid_quiet

theorem seek_forward_quiet (target : Bytes) : Quiet Consistent (seek_forward target) := by
  refine quiet_get fun it _ => ?_
  split
  · exact (rebuild_quiet _ _).bind fun _ => pull_quiet
  · exact (quiet_engine _).bind fun _ => cursor_valid_quiet

theorem seek_reverse_quiet (target : Bytes) : Quiet Consistent (seek_reverse target) := by
  refine quiet_get fun it _ => ?_
  split
  · exact (rebuild_quiet _ _).bind fun _ => pull_quiet
  · refine gives_if restart_quiet ?_
    exact (quiet_engine _).bind fun _ => cursor_valid_quiet

theorem invalidate_batch_quiet : Quiet Consistent invalidate_batch := by
  refine Gives.bind (quiet_modify ?_) fun _ => (quiet_engine .drop).bind fun _ => quiet_modify ?_
  · exact fun _ h => h
  · exact fun _ h => h

theorem seek_quiet (target : Bytes) : Quiet Consistent (Iter.seek target) := by
  refine Gives.bind (quiet_modify ?_) fun _ => invalidate_batch_quiet.bind fun _ => ?_
  · exact fun _ _ => nofun
  · refine Gives.bind (quiet_modify ?_) fun _ => quiet_get fun it _ => ?_
    · exact fun _ h => h
    · exact gives_if (seek_reverse_quiet target) (seek_forward_quiet target)

theorem current_quiet (value : Bool) {cursor : Body Iter (Option Bytes)}
    {entry : Entry → Body Iter (Option Bytes)} (hcursor : Quiet Consistent cursor)
    (hentry : ∀ e, Quiet Consistent (entry e)) : Quiet Consistent (current value cursor entry) := by
  refine quiet_get fun it _ => gives_if (quiet_pure _) (in_range_quiet.bind fun _ => ?_)
  refine gives_if (quiet_get fun it _ => ?_) (quiet_pure _)
  split
  · exact hcursor
  · exact hentry _
  · exact quiet_pure _

theorem entry_value_quiet (e : Entry) : Quiet Consistent (entry_value e) :=
  (quiet_engine .view).bind fun _ => quiet_pure e.value

theorem current_key_quiet : Quiet Consistent current_key :=
  current_quiet false (quiet_engine .key) fun _ => quiet_pure _

theorem current_value_quiet : Quiet Consistent current_value :=
  current_quiet true (quiet_engine .value) entry_value_quiet

theorem current_value_slice_quiet : Quiet Consistent current_value_slice :=
  current_quiet true (quiet_engine .value_slice) entry_value_quiet

theorem advance_in_batch_quiet : Quiet Consistent advance_in_batch := by
  refine quiet_get fun it hit => gives_if ?_ (gives_if ?_ step_quiet)
  · refine Gives.bind (quiet_set ?_) fun _ => restart_quiet
    exact hit
  · refine Gives.bind (quiet_set ?_) fun _ => in_range_quiet
    exact hit

open RegolithIter in
-- By the rounds left: a failure is reported, or held back for the next call.
theorem gather_grows (rounds : Nat) (batch : KeyBatch) (retained : Nat) :
    Gives Consistent (Grows rounds batch) (gather rounds batch retained) := by
  induction rounds generalizing batch retained with
  | zero => exact gives_pure (.refl 0 batch)
  | succ rounds ih =>
    have hkept : Gives Consistent (Grows (rounds + 1) batch) (pure batch) :=
      gives_pure (.refl _ batch)
    refine gives_attempt advance_in_batch_quiet (fun valid => ?_) fun failure hfailure => ?_
    · cases valid with
      | false => exact hkept
      | true =>
        refine current_key_quiet.bind fun key => ?_
        cases key with
        | none => exact hkept
        | some key =>
          dsimp only
          split_ifs with hlong
          · exact gives_err (Failure.other_agrees _)
          · have hframed (retained : Nat) : Gives Consistent (Grows (rounds + 1) batch)
                (gather rounds ⟨batch.frame ++ Radix.toLE 4 key.length ++ key, batch.count + 1⟩
                  retained) :=
              (ih _ _).mono fun _ h => .framed (not_le.mp hlong) h
            refine current_value_slice_quiet.bind fun value => ?_
            cases value with
            | none => exact hframed _
            | some value =>
              refine (quiet_engine .view).bind fun _ => Gives.bind (quiet_modify ?_) fun _ => ?_
              · exact fun _ h => h
              · exact gives_if (gives_pure (.framed (not_le.mp hlong) (.refl _ _))) (hframed _)
    · refine gives_if (gives_err hfailure) ((quiet_modify fun _ _ => ?_).bind fun _ => hkept)
      rintro _ ⟨rfl⟩
      exact hfailure

theorem regolith_iter_next_clean (valid : OutParam) :
    Clean Consistent .flag (regolith_iter_next valid) := by
  refine Gives.bind_clean (quiet_modify ?_) fun _ => clean_get fun it hit => ?_
  · exact fun _ h => h
  · refine clean_if ?_ (step_quiet.bind_clean fun _ => out_bool_clean _ _)
    refine Gives.bind_clean (quiet_set ?_) fun _ => ?_
    · exact hit
    · exact restart_quiet.bind_clean fun _ => out_bool_clean _ _

theorem regolith_iter_seek_clean (key : InBytes) (valid : OutParam) :
    Clean Consistent .flag (regolith_iter_seek key valid) := by
  unfold regolith_iter_seek
  split
  · exact (seek_quiet _).bind_clean fun _ => out_bool_clean _ _
  · exact clean_err (Failure.invalid_arg_agrees _)

theorem regolith_iter_reset_quiet : Quiet Consistent regolith_iter_reset := by
  refine Gives.bind (quiet_modify ?_) fun _ => invalidate_batch_quiet
  exact fun _ _ => nofun

theorem regolith_iter_key_clean (key key_len : OutParam) :
    Clean Consistent .bytes (regolith_iter_key key key_len) := by
  refine current_key_quiet.bind_clean fun current => ?_
  cases current with
  | some current => exact out_bytes_clean _ _ _
  | none => exact clean_err Failure.not_found_agrees

theorem regolith_iter_value_clean (val val_len : OutParam) :
    Clean Consistent .bytes (regolith_iter_value val val_len) := by
  refine in_range_quiet.bind_clean fun _ => clean_if ?_ ?_
  · exact current_value_quiet.bind_clean fun _ => out_bytes_clean _ _ _
  · exact clean_err Failure.not_found_agrees

-- The count is written first, and nothing that comes after can fail.
theorem regolith_iter_next_batch_clean (max_entries : Nat) (out out_len out_count : OutParam) :
    Clean Consistent .batch (regolith_iter_next_batch max_entries out out_len out_count) := by
  unfold regolith_iter_next_batch
  refine clean_unless (Failure.invalid_arg_agrees _) fun hnull => ?_
  refine clean_unless (Failure.invalid_arg_agrees _) fun _ => ?_
  refine invalidate_batch_quiet.bind_clean fun _ => clean_get fun it hit => ?_
  split
  · next failure hpending =>
    refine Gives.bind_clean (quiet_modify ?_) fun _ => ?_
    · exact fun _ _ => nofun
    · exact clean_err (hit hpending)
  · refine (gather_grows _ _ _).then_clean fun batch hbatch => ?_
    obtain ⟨keys, -, hkeys, rfl⟩ := hbatch
    refine Gives.bind_clean (quiet_modify ?_) fun _ => ?_
    · exact fun _ h => h
    · have hout := out_bytes_writes (σ := Iter) ([] ++ PrefixCode.pack key_record keys)
        (fun h => hnull (.inl h)) fun h => hnull (.inr (.inl h))
      refine ((writes_write (.count (0 + keys.length))).bind hout).clean ⟨keys, hkeys, ?_⟩
      simp

theorem regolith_iter_batch_value_clean (idx : Nat) (val val_len : OutParam) :
    Clean Consistent .lent (regolith_iter_batch_value idx val val_len) := by
  unfold regolith_iter_batch_value
  refine clean_unless (Failure.invalid_arg_agrees _) fun _ => clean_get fun it _ => ?_
  refine clean_unless (Failure.invalid_arg_agrees _) fun _ => ?_
  refine (quiet_engine .view).bind_clean fun _ => ?_
  exact ((writes_write _).bind (writes_write _)).clean ⟨it.batch_values[idx]?, rfl⟩

theorem regolith_iter_close_quiet : Quiet Consistent regolith_iter_close :=
  quiet_engine .drop

end Iter

end Abi

end Regolith.Ffi
