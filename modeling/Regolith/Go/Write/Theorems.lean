import Regolith.Go.Write
import Regolith.Frame.Decode
import Mathlib.Data.List.Induction
import Mathlib.Logic.Function.Basic

-- Batched writes are all-or-nothing and ordered, from the calls that fill a
-- batch to the store.
namespace Regolith.Go

open Ffi Regolith.Frame

-- The abstract store: a map from keys, and what one op does to it.
abbrev StoreMap := Bytes → Option Bytes

def op_key : RawOp → Bytes
  | .Set key _ => key
  | .Delete key => key

def op_value : RawOp → Option Bytes
  | .Set _ value => some value
  | .Delete _ => none

def applyOp (store : StoreMap) (op : RawOp) : StoreMap :=
  Function.update store (op_key op) (op_value op)

def applyOps (store : StoreMap) (ops : List RawOp) : StoreMap :=
  ops.foldl applyOp store

-- The ops since the last reset, in the order they were added.
def pending_op (ops : List RawOp) : BatchCall → List RawOp
  | .Set key value => ops ++ [.Set key value]
  | .Delete key => ops ++ [.Delete key]
  | .Reset => []

def opsOf (calls : List BatchCall) : List RawOp :=
  calls.foldl pending_op []

-- `Db::write` applies its ops in order as one step, or reports an error having
-- applied none.
def WritesAtomically (St : Type) [StoreEngine St] : Prop :=
  ∀ (store : St) (batch : EngineBatch),
    ((StoreEngine.write store batch).1 = .ok () ∧
      StoreEngine.contents (StoreEngine.write store batch).2 =
        applyOps (StoreEngine.contents store) batch.ops) ∨
    (∃ error, (StoreEngine.write store batch).1 = .error error ∧
      StoreEngine.contents (StoreEngine.write store batch).2 = StoreEngine.contents store)

-- The packed buffer and the counter describe one op list.
theorem fill_eq_batchOf (calls : List BatchCall) : fill .zero calls = batchOf (opsOf calls) := by
  suffices h : ∀ ops, calls.foldl BatchCall.apply (batchOf ops) =
      batchOf (calls.foldl pending_op ops) by
    exact h []
  induction calls with
  | nil => intro ops; rfl
  | cons call calls ih =>
      intro ops
      rw [List.foldl_cons, List.foldl_cons, ← ih (pending_op ops call)]
      cases call with
      | Set key value => simp [BatchCall.apply, pending_op, batchOf, add]
      | Delete key => simp [BatchCall.apply, pending_op, batchOf, add]
      | Reset => rfl

theorem batchOf_n (ops : List RawOp) : (batchOf ops).n = ops.length := by
  simp [batchOf, foldl_add_n, WriteBatch.zero]

theorem applyOps_eq_last (ops : List RawOp) (store : StoreMap) (key : Bytes) :
    applyOps store ops key =
      match ops.reverse.find? (op_key · = key) with
      | some op => op_value op
      | none => store key := by
  induction ops using List.reverseRecOn with
  | nil => rfl
  | append_singleton ops op ih =>
      rw [applyOps, List.foldl_append, List.foldl_cons, List.foldl_nil, List.reverse_append]
      simp only [List.reverse_singleton, List.singleton_append, List.find?_cons, applyOp]
      by_cases h : op_key op = key
      · simp [h]
      · rw [Function.update_of_ne (Ne.symm h)]
        simpa [h, applyOps] using ih

-- Applying the same ops a second time changes nothing.
theorem applyOps_idem (ops : List RawOp) (store : StoreMap) :
    applyOps (applyOps store ops) ops = applyOps store ops := by
  funext key
  rw [applyOps_eq_last, applyOps_eq_last]
  cases ops.reverse.find? (op_key · = key) <;> rfl

section Write

variable {St : Type} [StoreEngine St]

theorem statusToErr_failure_ne (fault : OpFault) (detail : Option String) :
    statusToErr fault.failure.status detail ≠ none := by
  simp [statusToErr_eq_none_iff, OpFault.failure, Failure.invalid_arg, INVALID_ARG, OK]

-- What `DB.Write` does with a batch that has ops, by the two layers below it.
inductive WriteOutcome (store : St) (ops : List RawOp) : Option GoError → St → Prop where
  | rejected {error : GoError} {fault : OpFault} : decode (packed ops) = .error fault →
      WriteOutcome store ops (some error) store
  | failed {error : GoError} {reason : EngineError} : decode (packed ops) = .ok ⟨ops⟩ →
      (StoreEngine.write store ⟨ops⟩).1 = .error reason →
      WriteOutcome store ops (some error) (StoreEngine.write store ⟨ops⟩).2
  | applied : decode (packed ops) = .ok ⟨ops⟩ → (StoreEngine.write store ⟨ops⟩).1 = .ok () →
      WriteOutcome store ops none (StoreEngine.write store ⟨ops⟩).2

theorem decode_packed {ops : List RawOp} (hlen : (packed ops).length < 2 ^ 63) :
    decode (packed ops) = .ok ⟨ops⟩ ∨ ∃ fault, decode (packed ops) = .error fault := by
  rw [decode_eq_reference hlen]
  cases hdecode : reference_decode (packed ops) with
  | error fault => exact .inr ⟨fault, rfl⟩
  | ok batch =>
      have h := ((reference_decode_eq_ok_iff hlen batch.ops).mp hdecode).1
      rw [packed_injective h hlen]
      exact .inl rfl

theorem write_outcome (store : St) (ops : List RawOp) (hne : ops ≠ [])
    (hlen : (packed ops).length < 2 ^ 63) :
    ∃ error after, DB.Write ⟨some store, false⟩ (some (batchOf ops)) =
        (error, ⟨some after, false⟩, some (batchOf ops)) ∧ WriteOutcome store ops error after := by
  have hn : ¬(batchOf ops).n = 0 := by
    rw [batchOf_n]
    simpa using hne
  simp only [DB.Write, Bool.false_eq_true, if_false, hn, regolith_db_write, in_bytes_bytePtr]
  rw [← packed]
  rcases decode_packed hlen with hdecode | ⟨fault, hdecode⟩
  · simp only [hdecode]
    cases hwrite : StoreEngine.write store ⟨ops⟩ with
    | mk result after =>
        have hafter : (StoreEngine.write store ⟨ops⟩).2 = after := by rw [hwrite]
        cases result with
        | ok _ => exact ⟨none, after, by simp, hafter ▸ .applied hdecode (by rw [hwrite])⟩
        | error reason =>
            obtain ⟨error, herror⟩ := Option.ne_none_iff_exists'.mp
              (fun h => of_error_status_ne reason ((statusToErr_eq_none_iff _ _).mp h) :
                statusToErr (Failure.of_error reason).status
                  (guard .writable (fail (.of_error reason) : Except Raised Unit)).err ≠ none)
            exact ⟨some error, after, by simpa using herror,
              hafter ▸ .failed hdecode (by rw [hwrite])⟩
  · simp only [hdecode]
    obtain ⟨error, herror⟩ := Option.ne_none_iff_exists'.mp
      (statusToErr_failure_ne fault
        (guard .writable (fail fault.failure : Except Raised Unit)).err)
    exact ⟨some error, store, by simpa using herror, .rejected hdecode⟩

-- The contents after a write, by what it returned.
theorem WriteOutcome.contents (laws : WritesAtomically St) {store after : St} {ops : List RawOp}
    {error : Option GoError} (h : WriteOutcome store ops error after) :
    (error = none ∧
      StoreEngine.contents after = applyOps (StoreEngine.contents store) ops) ∨
    (error ≠ none ∧ StoreEngine.contents after = StoreEngine.contents store) := by
  cases h with
  | rejected _ => exact .inr ⟨by simp, rfl⟩
  | failed _ hfailed =>
      rcases laws store ⟨ops⟩ with ⟨hok, -⟩ | ⟨reason, -, hsame⟩
      · rw [hfailed] at hok
        cases hok
      · exact .inr ⟨by simp, hsame⟩
  | applied _ hok =>
      rcases laws store ⟨ops⟩ with ⟨-, happly⟩ | ⟨reason, hfailed, -⟩
      · exact .inl ⟨rfl, happly⟩
      · rw [hok] at hfailed
        cases hfailed

-- The engine decides by what the store holds, not by anything hidden.
def DecidesByContents (St : Type) [StoreEngine St] : Prop :=
  ∀ (store other : St) (batch : EngineBatch),
    StoreEngine.contents store = StoreEngine.contents other →
      (StoreEngine.write store batch).1 = (StoreEngine.write other batch).1

-- The outcome of writing the same batch again, right after.
theorem WriteOutcome.again (laws : WritesAtomically St) {store after final : St}
    {ops : List RawOp} {error error' : Option GoError} (h : WriteOutcome store ops error after)
    (h' : WriteOutcome after ops error' final) :
    (error = none ∨ error' ≠ none →
      StoreEngine.contents final = StoreEngine.contents after) ∧
    (error' = none →
      StoreEngine.contents final = applyOps (StoreEngine.contents store) ops) := by
  rcases h'.contents laws with ⟨rfl, happlied⟩ | ⟨hne', hkept⟩
  · rcases h.contents laws with ⟨-, hfirst⟩ | ⟨hne, hfirst⟩
    · rw [happlied, hfirst, applyOps_idem]
      exact ⟨fun _ => rfl, fun _ => rfl⟩
    · rw [happlied, hfirst]
      exact ⟨fun hsame => by simp [hne] at hsame, fun _ => rfl⟩
  · exact ⟨fun _ => hkept, fun hnone => absurd hnone hne'⟩

-- An engine that goes by the contents answers a second time as it did the first.
theorem WriteOutcome.decided (laws : WritesAtomically St) (hdecides : DecidesByContents St)
    {store after final : St} {ops : List RawOp} {error error' : Option GoError}
    (h : WriteOutcome store ops error after) (h' : WriteOutcome after ops error' final) :
    error = none ∨ error' ≠ none := by
  rcases h.contents laws with ⟨hnone, -⟩ | ⟨-, hfirst⟩
  · exact .inl hnone
  · cases h' with
    | applied hdecode hok =>
        cases h with
        | rejected hfault => rw [hdecode] at hfault; cases hfault
        | failed _ hfailed =>
            rw [hdecides _ store ⟨ops⟩ hfirst, hfailed] at hok
            cases hok
        | applied _ _ => exact .inl rfl
    | _ => exact .inr (by simp)

theorem write_empty (db : DB St) (hopen : db.closed = false) :
    db.Write (some (batchOf [])) = (none, db, some (batchOf [])) := by
  simp [DB.Write, hopen, batchOf, WriteBatch.zero]

-- Batched writes are all-or-nothing and ordered, end to end.
theorem write_batch_atomic (laws : WritesAtomically St) (start : WriteBatch)
    (hstart : start = .zero ∨ ∃ sizeHint, start = .NewWriteBatch sizeHint)
    (calls : List BatchCall) (db : DB St) (hopen : db.IsOpen)
    (hlen : (fill start calls).buf.length < 2 ^ 63) :
    let b := fill start calls
    let ops := opsOf calls
    let first := db.Write (some b)
    let second := first.2.1.Write first.2.2
    b.Len = ops.length ∧ b.Size = (ops.map op_size).sum ∧
    ((first.1 = none ∧ first.2.1.contents = applyOps db.contents ops) ∨
      (first.1 ≠ none ∧ first.2.1.contents = db.contents)) ∧
    (∀ key, applyOps db.contents ops key =
      match ops.reverse.find? (op_key · = key) with
      | some op => op_value op
      | none => db.contents key) ∧
    (b.Len = 0 → first.1 = none ∧ first.2.1.contents = db.contents) ∧
    first.2.2 = some b ∧
    (first.1 = none ∨ second.1 ≠ none → second.2.1.contents = first.2.1.contents) ∧
    (second.1 = none → second.2.1.contents = applyOps db.contents ops) ∧
    (DecidesByContents St → second.2.1.contents = first.2.1.contents) := by
  have hzero : start = .zero := by
    rcases hstart with rfl | ⟨_, rfl⟩ <;> rfl
  subst hzero
  rw [fill_eq_batchOf] at hlen
  obtain ⟨hclosed, hlive⟩ := hopen
  obtain ⟨handle, closed⟩ := db
  obtain ⟨store, rfl⟩ := Option.isSome_iff_exists.mp hlive
  subst hclosed
  simp only [fill_eq_batchOf]
  generalize opsOf calls = ops at hlen ⊢
  refine ⟨batchOf_n ops, length_packed ops, ?_⟩
  refine and_left_comm.mp ⟨fun key => applyOps_eq_last ops _ key, ?_⟩
  by_cases hne : ops = []
  · subst hne
    simp [write_empty, applyOps]
  · obtain ⟨error, after, hfirst, houtcome⟩ := write_outcome store ops hne hlen
    obtain ⟨error', final, hsecond, houtcome'⟩ := write_outcome after ops hne hlen
    have hcount : (batchOf ops).Len ≠ 0 := by
      rw [WriteBatch.Len, batchOf_n]
      simpa using hne
    simp only [hfirst, hsecond]
    have hagain := houtcome.again laws houtcome'
    exact ⟨houtcome.contents laws, fun h => absurd h hcount, trivial, hagain.1, hagain.2,
      fun hdecides => hagain.1 (houtcome.decided laws hdecides houtcome')⟩

end Write

-- A store that refuses nothing: the values written, latest first.
structure ListStore where
  entries : List (Bytes × Option Bytes)

instance : StoreEngine ListStore where
  write store batch :=
    (.ok (), ⟨batch.ops.foldl (fun entries op => (op_key op, op_value op) :: entries) store.entries⟩)
  contents store key := (store.entries.find? (·.1 = key)).bind Prod.snd

theorem listStore_writes : WritesAtomically ListStore := by
  rintro ⟨entries⟩ ⟨ops⟩
  refine .inl ⟨rfl, ?_⟩
  induction ops generalizing entries with
  | nil => rfl
  | cons op ops ih =>
      refine (ih ((op_key op, op_value op) :: entries)).trans ?_
      refine congrArg (applyOps · ops) (funext fun key => ?_)
      by_cases h : op_key op = key
      · subst h
        simp [StoreEngine.contents, applyOp]
      · rw [applyOp, Function.update_of_ne (Ne.symm h)]
        simp [StoreEngine.contents, h]

theorem write_batch_atomic_set_delete :
    let calls : List BatchCall := [.Set [1] [2, 3], .Delete [1], .Set [7] []]
    let db : DB ListStore := ⟨some ⟨[([7], some [9])]⟩, false⟩
    let first := db.Write (some (fill .zero calls))
    let second := first.2.1.Write first.2.2
    (fill .zero calls).Len = 3 ∧ (fill .zero calls).Size = 48 ∧
    first.2.2 = some (fill .zero calls) ∧
    ((first.1 = none ∧ first.2.1.contents = applyOps db.contents (opsOf calls)) ∨
      (first.1 ≠ none ∧ first.2.1.contents = db.contents)) ∧
    second.2.1.contents = first.2.1.contents := by
  intro calls db first second
  have hdecides : DecidesByContents ListStore := fun _ _ _ _ => rfl
  have h := write_batch_atomic listStore_writes .zero (.inl rfl) calls db ⟨rfl, rfl⟩ (by decide)
  exact ⟨h.1, h.2.1, h.2.2.2.2.2.1, h.2.2.1, h.2.2.2.2.2.2.2.2 hdecides⟩

-- One that refuses the first write.
structure FlakyStore where
  refused : Bool
  store : ListStore

instance : StoreEngine FlakyStore where
  write s batch :=
    if s.refused then (.ok (), ⟨true, (StoreEngine.write s.store batch).2⟩)
    else (.error (.Other "no space left"), ⟨true, s.store⟩)
  contents s := StoreEngine.contents s.store

theorem flakyStore_writes : WritesAtomically FlakyStore := by
  rintro ⟨refused, store⟩ batch
  cases refused with
  | true =>
      rcases listStore_writes store batch with ⟨-, happlied⟩ | ⟨_, herror, -⟩
      · exact .inl ⟨rfl, happlied⟩
      · cases herror
  | false => exact .inr ⟨_, rfl, rfl⟩

-- A batch that is written again after it failed may land.
theorem write_again_lands :
    let b := fill .zero [.Set [1] [2]]
    let db : DB FlakyStore := ⟨some ⟨false, ⟨[]⟩⟩, false⟩
    let first := db.Write (some b)
    let second := first.2.1.Write first.2.2
    WritesAtomically FlakyStore ∧ db.IsOpen ∧ b.buf.length < 2 ^ 63 ∧ first.1 ≠ none ∧
      second.1 = none ∧ second.2.1.contents ≠ first.2.1.contents := by
  intro b db first second
  have hdecode : decode (packed [.Set [1] [2]]) = .ok ⟨[.Set [1] [2]]⟩ :=
    decode_packed_of_le (by decide)
  change decode b.buf = _ at hdecode
  have hfirst : first = (some ⟨.ErrUnexpected, "no space left"⟩,
      ⟨some ⟨true, ⟨[]⟩⟩, false⟩, some b) := by
    change DB.Write db (some b) = _
    simp only [DB.Write, regolith_db_write, in_bytes_bytePtr, hdecode]
    rfl
  have hsecond : second = (none, ⟨some ⟨true, ⟨[([1], some [2])]⟩⟩, false⟩, some b) := by
    change DB.Write first.2.1 first.2.2 = _
    rw [hfirst]
    simp only [DB.Write, regolith_db_write, in_bytes_bytePtr, hdecode]
    rfl
  refine ⟨flakyStore_writes, ⟨rfl, rfl⟩, by decide, by simp [hfirst], by simp [hsecond], fun h => ?_⟩
  rw [hfirst, hsecond] at h
  exact absurd (congrFun h [1]) (by decide)

end Regolith.Go
