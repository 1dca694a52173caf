import Regolith.Ffi.ListEngine
import Regolith.Go.Shared.Txn
import Regolith.Library.Served

-- However goroutines take turns on a transaction, it is one that is used by a single goroutine.
namespace Regolith.Go.Shared.Txn

open Ffi Goroutine

variable {C T S : Type} [OwnedTransaction T S]

-- What is behind the handle: the body, and what a commit or a rollback made of the engine's
-- transaction.
structure Handle (T : Type) where
  body : TxnInner T
  spent : Option T

def FfiCall.run (h : Handle T) : (c : FfiCall) → c.Reply (Source C T S) × Handle T
  | .regolith_txn_get_borrowed key =>
      let (reply, body) :=
        Ffi.regolith_txn_get_borrowed h.body key .writable .writable .writable .writable
      (reply, { h with body := body })
  | .regolith_txn_has key =>
      let (reply, body) := Ffi.regolith_txn_has h.body key .writable .writable
      (reply, { h with body := body })
  | .regolith_txn_set key value =>
      let (reply, body) := Ffi.regolith_txn_set h.body key value .writable
      (reply, { h with body := body })
  | .regolith_txn_delete key =>
      let (reply, body) := Ffi.regolith_txn_delete h.body key .writable
      (reply, { h with body := body })
  | .regolith_txn_iter opts =>
      let (reply, body) := Ffi.regolith_txn_iter C S h.body (some opts) .writable .writable
      (reply, { h with body := body })
  | .regolith_txn_commit =>
      let (reply, spent, body) := Ffi.regolith_txn_commit h.body .writable
      (reply, ⟨body, spent.or h.spent⟩)
  | .regolith_txn_free =>
      let (reply, spent, body) := Ffi.regolith_txn_free h.body .null
      (reply, ⟨body, spent.or h.spent⟩)

-- A call on no handle may come to anything.
def serves : Server (signature (Source C T S)) (Handle T) :=
  fun h c r h' => c.t = true → c.call.run h = (r, h')

-- A transaction that one goroutine uses. Each call is told whether the database is closed.
structure Sequential (T : Type) where
  handle : Handle T
  resolved : Bool

namespace Sequential

-- A method that uses the handle, unless there is a reason not to.
def use (call : FfiCall) (closed : Bool) (x : Sequential T)
    (answer : call.Reply (Source C T S) → Answer (Source C T S)) :
    Answer (Source C T S) × Sequential T :=
  if closed then (refuse .ErrClosed, x)
  else if x.resolved then (refuse .ErrDiscarded, x)
  else
    let (reply, handle) := call.run x.handle
    (answer reply, { x with handle := handle })

def run (closed : Bool) (x : Sequential T) : Method → Answer (Source C T S) × Sequential T
  | .Get key => x.use (.regolith_txn_get_borrowed (bytePtr key)) closed copyBorrowed
  | .Has key =>
      x.use (.regolith_txn_has (bytePtr key)) closed fun (reply : Reply Bool) =>
        checked reply fun found => .found (found.getD false)
  | .Set key value =>
      x.use (.regolith_txn_set (bytePtr key) (bytePtr value)) closed
        fun (reply : Reply Unit) => checked reply fun _ => .nothing
  | .Delete key =>
      x.use (.regolith_txn_delete (bytePtr key)) closed fun (reply : Reply Unit) =>
        checked reply fun _ => .nothing
  | .NewIter opts =>
      x.use (.regolith_txn_iter (newIterOptions opts)) closed fun reply =>
        .ok ((newIter reply opts).map .iter)
  | .Commit =>
      if x.resolved then (refuse .ErrDiscarded, x)
      else if closed then (refuse .ErrClosed, x)
      else
        let (reply, handle) := FfiCall.run (C := C) (S := S) x.handle .regolith_txn_commit
        (checked (α := Unit) reply fun _ => .nothing, ⟨handle, true⟩)
  | .Discard =>
      if x.resolved then (.ok (.ok .nothing), x)
      else
        let (_, handle) := FfiCall.run (C := C) (S := S) x.handle .regolith_txn_free
        (.ok (.ok .nothing), ⟨handle, true⟩)

end Sequential

-- A transaction that `DB.NewTxn` has begun, of a database that is closed at one moment for all.
def sequential (txn : T) (readOnly : Bool) :
    Linear.Object Method (Answer (Source C T S)) Empty Flag :=
  ⟨Sequential T, ⟨⟨.new txn readOnly, none⟩, false⟩,
    fun x call now answer x' => x.run (now .closed) call.method = (answer, x')⟩

-- As goroutines have it: a call that finds the database open uses the handle some time later.
def overdue (txn : T) (readOnly : Bool) :
    Linear.Object Method (Answer (Source C T S)) Empty Flag :=
  ⟨Sequential T, ⟨⟨.new txn readOnly, none⟩, false⟩, fun x call now answer x' =>
    x.run (now .closed) call.method = (answer, x') ∨
      call.before .closed = false ∧ x.resolved = false ∧ x'.resolved = false ∧
        x.run false call.method = (answer, x')⟩

-- Once the database is closed, no call but `Discard` changes a transaction.
theorem Sequential.run_closed {x x' : Sequential T} {m : Method} {answer : Answer (Source C T S)}
    (h : x.run true m = (answer, x')) (hlive : x'.resolved = false) :
    x' = x ∧ ∀ y : Sequential T, y.resolved = false → y.run true m = (answer, y) := by
  cases m with
  | Commit =>
    cases hx : x.resolved with
    | true =>
      simp only [Sequential.run, hx, if_true, Prod.mk.injEq] at h
      simp [← h.2, hx] at hlive
    | false =>
      simp only [Sequential.run, hx, if_true, Bool.false_eq_true, if_false, Prod.mk.injEq] at h
      exact ⟨h.2.symm, fun y hy => by simp [Sequential.run, hy, h.1]⟩
  | Discard =>
    cases hx : x.resolved with
    | true =>
      simp only [Sequential.run, hx, if_true, Prod.mk.injEq] at h
      simp [← h.2, hx] at hlive
    | false =>
      simp only [Sequential.run, hx, Bool.false_eq_true, if_false, Prod.mk.injEq] at h
      simp [← h.2] at hlive
  | _ =>
    simp only [Sequential.run, Sequential.use, if_true, Prod.mk.injEq] at h
    exact ⟨h.2.symm, fun y _ => by simp [Sequential.run, Sequential.use, h.1]⟩

theorem overdue_late (txn : T) (readOnly : Bool) :
    Linear.Late (overdue (C := C) (S := S) txn readOnly).does
      (sequential (C := C) (S := S) txn readOnly).does Flag.closed
      fun x : Sequential T => x.resolved = false where
  late := by
    rintro x call now answer x' (h | ⟨hbefore, hx, hx', h⟩)
    · exact .inl h
    · cases hnow : now .closed with
      | false => exact .inl (by simpa only [sequential, hnow] using h)
      | true =>
        exact .inr ⟨rfl, hbefore, hx, hx', fun now' hlowered => by
          simpa only [sequential, hlowered] using h⟩
  after := by
    intro x call now answer x' h hraised hlive
    simp only [sequential, hraised] at h ⊢
    exact Sequential.run_closed h hlive

section Bodies

-- What links a transaction to the one that is used alone, while nobody resolves it.
structure Shows (flags : Flag → Bool) (h : Handle T) (x : Sequential T) : Prop where
  state : x = ⟨h, flags .resolved⟩
  live : flags .t = !flags .resolved

abbrev Places (C S : Type) {T : Type} [OwnedTransaction T S] (txn : T) (readOnly : Bool) :=
  Served.Lin (object (Source C T S)) serves (.none _) (overdue txn readOnly) Shows

variable {txn : T} {readOnly : Bool} {flags : Flag → Bool} {x : Sequential T}
  {call : Served.Call (signature (Source C T S)) Empty}

-- A step that has the effect of the method, and leaves what is behind the handle.
theorem answers {now : Flag → Bool} {engine : Handle T} (answer : Answer (Source C T S))
    (h : x.run (C := C) (S := S) (now .closed) call.method = (answer, x))
    (hx : Shows flags engine x) :
    ∃ x', Served.Effect (S := signature (Source C T S)) (overdue txn readOnly) call now x none
      (some answer) x' ∧ Shows flags engine x' :=
  ⟨x, .inr ⟨rfl, answer, rfl, .inl h⟩, hx⟩

-- One that has none.
theorem passes {now : Flag → Bool} {engine : Handle T} {done : Option (Answer (Source C T S))}
    (hx : Shows flags engine x) :
    ∃ x', Served.Effect (S := signature (Source C T S)) (overdue txn readOnly) call now x done
      done x' ∧ Shows flags engine x' :=
  ⟨x, .inl ⟨rfl, rfl⟩, hx⟩

theorem begin_lin (crossing : FfiCall)
    (answer : crossing.Reply (Source C T S) → Answer (Source C T S))
    (hm : ∀ closed (x : Sequential T), x.run closed call.method = x.use crossing closed answer) :
    Places C S txn readOnly call
      (begin (cross crossing fun reply => .unlock .read (.ret (answer reply)))) .before := by
  intro flags engine x hx closed hclosed
  refine ⟨rfl, ?_⟩
  cases closed with
  | true =>
    refine ⟨some (refuse .ErrClosed), fun now engine x hnow hx => answers _ ?_ hx, rfl⟩
    rw [hnow rfl]
    exact hm ..
  | false =>
    have hbefore : call.before .closed = false := by
      cases h : call.before .closed with
      | false => rfl
      | true => exact (hclosed.before h).symm
    cases hflag : flags .resolved with
    | true =>
      -- the transaction is resolved as the store is found open
      refine ⟨some (refuse .ErrDiscarded), fun now engine x hnow hx => answers _ ?_ hx,
        fun resolved hresolved => ⟨rfl, _, fun _ _ _ _ hx => passes hx, ?_⟩⟩
      · rw [hnow rfl]
        exact (hm ..).trans (by simp [Sequential.use, hx.state, hflag])
      · obtain rfl : resolved = true := (hresolved.own rfl).trans hflag
        rfl
    | false =>
      refine ⟨none, fun _ _ _ _ hx => passes hx, fun resolved hresolved =>
        ⟨rfl, none, fun _ _ _ _ hx => passes hx, ?_⟩⟩
      obtain rfl : resolved = false := (hresolved.own rfl).trans hflag
      refine fun t ht => ⟨rfl, none, fun _ _ _ _ hx => passes hx, fun reply => ?_⟩
      refine ⟨some (answer reply), fun now engine x engine' hx hserves => ?_, rfl⟩
      have hrun : crossing.run engine = (reply, engine') :=
        hserves ((ht.own rfl).trans (by simp [hx.live, hflag]))
      obtain ⟨rfl, hlive⟩ := hx
      refine ⟨⟨engine', flags .resolved⟩, .inr ⟨rfl, _, rfl, .inr ⟨hbefore, hflag, hflag, ?_⟩⟩,
        rfl, hlive⟩
      refine (hm _ _).trans ?_
      simp [Sequential.use, hflag, hrun]

theorem Shows.congr {engine : Handle T} {flags' : Flag → Bool} (h : Shows flags engine x)
    (hflags : ∀ flag ≠ .closed, flags' flag = flags flag) : Shows flags' engine x :=
  ⟨by rw [h.state, hflags .resolved nofun],
    by rw [hflags .t nofun, hflags .resolved nofun, h.live]⟩

-- What follows the call that frees the handle.
theorem freed_lin {engine : Handle T} {answer : Answer (Source C T S)} :
    Places C S txn readOnly call
      (.store .resolved true <| .store .t false <| .unlock .write (.ret answer))
      (.writing flags engine ⟨engine, true⟩ (some answer)) :=
  fun _ _ => ⟨nofun, _, _, fun _ _ => .inl ⟨rfl, rfl⟩, fun _ _ =>
    ⟨nofun, _, _, fun _ _ => .inl ⟨rfl, rfl⟩, ⟨by simp, by simp⟩, rfl⟩⟩

theorem commit_lin (hm : call.method = .Commit) :
    Places C S txn readOnly call (Commit : Code (Source C T S)) .before := by
  intro flags engine x hx
  refine Served.lin_load_writing rfl ?_
  cases hflag : flags .resolved with
  | true =>
    refine ⟨some (refuse .ErrDiscarded), x, fun now => .inr ⟨rfl, _, rfl, .inl ?_⟩, hx, rfl⟩
    simp [hm, Sequential.run, hx.state, hflag]
  | false =>
    refine ⟨none, x, fun _ => .inl ⟨rfl, rfl⟩, fun closed _ => ⟨fun _ => rfl, ?_⟩⟩
    have hx' : Shows (Function.update flags .closed (id closed)) engine x :=
      hx.congr fun flag hne => Function.update_of_ne hne ..
    cases closed with
    | true =>
      refine ⟨some (refuse .ErrClosed), x, fun now hnow => .inr ⟨rfl, _, rfl, .inl ?_⟩, hx', rfl⟩
      simp [hm, hnow rfl, Sequential.run, hx.state, hflag]
    | false =>
      -- nothing comes between this and the call that commits
      let committed := FfiCall.run (C := C) (S := S) engine .regolith_txn_commit
      refine ⟨some (checked (α := Unit) committed.1 fun _ => .nothing), ⟨committed.2, true⟩,
        fun now hnow => .inr ⟨rfl, _, rfl, .inl ?_⟩,
        Served.lin_load_writing rfl ⟨_, _, fun _ => .inl ⟨rfl, rfl⟩, ?_⟩⟩
      · simp [hm, hnow rfl, Sequential.run, hx.state, hflag, committed]
      · intro reply engine' hserves
        have hrun : committed = (reply, engine') := hserves (hx'.live.trans (by simp [hflag]))
        rw [hrun]
        exact ⟨_, _, fun _ => .inl ⟨rfl, rfl⟩, freed_lin⟩

theorem discard_lin (hm : call.method = .Discard) :
    Places C S txn readOnly call (Discard : Code (Source C T S)) .before := by
  intro flags engine x hx
  refine Served.lin_load_writing rfl ?_
  cases hflag : flags .resolved with
  | true =>
    refine ⟨some (.ok (.ok .nothing)), x, fun now => .inr ⟨rfl, _, rfl, .inl ?_⟩, hx, rfl⟩
    simp [hm, Sequential.run, hx.state, hflag]
  | false =>
    refine ⟨none, x, fun _ => .inl ⟨rfl, rfl⟩,
      Served.lin_load_writing rfl ⟨none, x, fun _ => .inl ⟨rfl, rfl⟩, ?_⟩⟩
    intro reply engine' hserves
    have hrun := hserves (hx.live.trans (by simp [hflag]))
    refine ⟨_, ⟨engine', true⟩, fun now => .inr ⟨rfl, _, rfl, .inl ?_⟩, freed_lin⟩
    change Sequential.run _ _ call.method = _
    simp [hm, Sequential.run, hx.state, hflag, hrun]

theorem linearized (txn : T) (readOnly : Bool) :
    Served.Linearized (object (Source C T S)) serves (.none _) (overdue txn readOnly) Shows
      ⟨.new txn readOnly, none⟩ where
  first := ⟨rfl, rfl⟩
  lowered flag h := by cases flag <;> simp_all [object]
  congr hflags hx := hx.congr fun flag hne => hflags flag (by cases flag <;> simp_all [object])
  bodies m before := by
    cases m with
    | Get key => exact begin_lin _ _ fun _ _ => rfl
    | Has key => exact begin_lin (.regolith_txn_has _) _ fun _ _ => rfl
    | Set key value => exact begin_lin (.regolith_txn_set _ _) _ fun _ _ => rfl
    | Delete key => exact begin_lin (.regolith_txn_delete _) _ fun _ _ => rfl
    | NewIter opts => exact begin_lin _ _ fun _ _ => rfl
    | Commit => exact commit_lin rfl
    | Discard => exact discard_lin rfl

end Bodies

-- What goroutines see of a transaction is what they might see of one that is used by a
-- single goroutine, one method after another, and of a database that is closed between two.
theorem txn_linearizable {ι : Type} [DecidableEq ι] {txn : T} {readOnly : Bool}
    {τ : List (Served.Label ι (signature (Source C T S)))}
    {s : Served.State ι (signature (Source C T S)) (Handle T)}
    (run : Served.Runs (object (Source C T S)) serves ⟨.new txn readOnly, none⟩ τ s) :
    Linear.Linearizable (sequential (C := C) (S := S) txn readOnly)
      (Served.history (.none _) τ) :=
  ((linearized txn readOnly).linearizable run).in_time (overdue_late txn readOnly)

-- A read that is under way as the database is closed, and a commit that comes after.
theorem txn_linearizable_commit :
    let bad : Bytes → Bool := fun _ => false
    Linear.Linearizable
      (sequential (C := ListCursor bad) (S := ListStream bad) (ListTxn.mk Contents.empty) false)
      [.enter 0 (.Get [1]), .raise .closed, .enter 1 .Commit,
        .leave 0 (.Get [1]) (refuse .ErrNotFound), .leave 1 .Commit (refuse .ErrClosed),
        .enter 0 .Discard, .leave 0 .Discard (.ok (.ok .nothing)), .enter 1 .Commit,
        .leave 1 .Commit (refuse .ErrDiscarded)] := by
  intro bad
  have run : Served.Runs (ι := Nat)
    (object (Source (ListCursor bad) (ListTxn bad) (ListStream bad))) serves
    (Handle.mk (.new (ListTxn.mk Contents.empty) false) none) [] _ := .nil
  have run := run.snoc (.event (.enter (g := 0) (m := Method.Get [1]) rfl) rfl)
  have run := run.snoc (.event (.lock (g := 0) rfl rfl) rfl)
  have run := run.snoc (.event (.access (g := 0) rfl) rfl)
  have hout :
      (object (Source (ListCursor bad) (ListTxn bad) (ListStream bad))).outside .closed =
        true := rfl
  have run := run.snoc (.event (.raise hout) rfl)
  have run := run.snoc (.event (.access (g := 0) rfl) rfl)
  have run := run.snoc (.event (.access (g := 0) rfl) rfl)
  have run := run.snoc (.event (.start (g := 0) rfl) rfl)
  have run := run.snoc (.event (.enter (g := 1) (m := Method.Commit) rfl) rfl)
  have run := run.snoc (.serve (g := 0) rfl rfl fun _ => rfl)
  have run := run.snoc (.finish (.finish (g := 0) _ rfl) rfl)
  have run := run.snoc (.event (.unlock (g := 0) rfl rfl) rfl)
  have run := run.snoc (.event (.leave (g := 0) rfl) rfl)
  have run := run.snoc (.event (.lock (g := 1) rfl rfl) rfl)
  have run := run.snoc (.event (.access (g := 1) rfl) rfl)
  have run := run.snoc (.event (.access (g := 1) rfl) rfl)
  have run := run.snoc (.event (.unlock (g := 1) rfl rfl) rfl)
  have run := run.snoc (.event (.leave (g := 1) rfl) rfl)
  have run := run.snoc (.event (.enter (g := 0) (m := Method.Discard) rfl) rfl)
  have run := run.snoc (.event (.lock (g := 0) rfl rfl) rfl)
  have run := run.snoc (.event (.access (g := 0) rfl) rfl)
  have run := run.snoc (.event (.access (g := 0) rfl) rfl)
  have run := run.snoc (.event (.start (g := 0) rfl) rfl)
  have run := run.snoc (.serve (g := 0) rfl rfl fun _ => rfl)
  have run := run.snoc (.finish (.finish (g := 0) _ rfl) rfl)
  have run := run.snoc (.event (.access (g := 0) rfl) rfl)
  have run := run.snoc (.event (.access (g := 0) rfl) rfl)
  have run := run.snoc (.event (.unlock (g := 0) rfl rfl) rfl)
  have run := run.snoc (.event (.leave (g := 0) rfl) rfl)
  have run := run.snoc (.event (.enter (g := 1) (m := Method.Commit) rfl) rfl)
  have run := run.snoc (.event (.lock (g := 1) rfl rfl) rfl)
  have run := run.snoc (.event (.access (g := 1) rfl) rfl)
  have run := run.snoc (.event (.unlock (g := 1) rfl rfl) rfl)
  have run := run.snoc (.event (.leave (g := 1) rfl) rfl)
  have h := txn_linearizable run
  simp only [Served.history, List.nil_append, List.cons_append, List.filterMap_cons, Served.seen,
    Served.Faults.none, Option.map_none, List.filterMap_nil] at h
  exact h

end Regolith.Go.Shared.Txn
