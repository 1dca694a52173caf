import Regolith.Go.Iter.Parse
import Regolith.Go.Shared.DB.Store

-- However goroutines take turns, and whatever comes between the engine calls of one crossing,
-- `DB` is the abstract store.
namespace Regolith.Go.Shared.DB

open Ffi Goroutine Program

variable {St : Type} {serves : Engine St} {contents : St → StoreMap}

-- What links a database to the store while nobody closes it.
def Shows (contents : St → StoreMap) (flags : Flag → Bool) (st : St) (x : Store) : Prop :=
  x = ⟨flags .closed, contents st⟩

section Failures

-- A failure of the boundary that is never reported as a missing key.
def Fails (raised : Raised) : Prop :=
  ∃ err : GoError, err ≠ .bare .ErrNotFound ∧ reported raised = some err

theorem withDetail_ne {sentinel : Sentinel} (message : String) (h : sentinel ≠ .ErrNotFound) :
    withDetail sentinel message ≠ .bare .ErrNotFound := by
  unfold withDetail
  split_ifs <;> simp [GoError.bare, h]

theorem Fault.fails (fault : Fault) : Fails fault.raised := by
  rcases fault with (_ | reason | display) | payload
  · exact ⟨.bare .ErrClosed, by decide, rfl⟩
  · exact ⟨_, withDetail_ne (RegolithError.into_raw reason) (by decide), rfl⟩
  · exact ⟨_, withDetail_ne (RegolithError.into_raw display) (by decide), rfl⟩
  · exact ⟨_, withDetail_ne (RegolithError.into_raw (panic_detail payload)) (by decide), rfl⟩

theorem opFault_fails (fault : OpFault) : Fails (.failure fault.failure) :=
  (Fault.error (.InvalidArgument fault.detail)).fails

-- What a method makes of a reply, if it returns the error that comes with one.
def Reports {α : Type} (answer : Reply α → Answer Opened) : Prop :=
  ∀ ⦃reply err⦄, statusToErr reply.status reply.err = some err → answer reply = .ok (.error err)

theorem checked_reports {α : Type} (value : Option α → Value Opened) :
    Reports fun reply => checked reply value := by
  intro reply err h
  simp only [checked, h]

theorem copyBorrowed_reports : Reports copyBorrowed := by
  intro reply err h
  simp only [copyBorrowed, h]

theorem newIter_reports (opts : IterOptions) :
    Reports fun reply => .ok ((newIter reply opts).map .iter) := by
  intro reply err h
  simp only [newIter, h]
  rfl

theorem handed_error {α : Type} (raised : Raised) (out : Option α) :
    handed (.error raised) out = handed (.error raised) none := by
  cases raised <;> rfl

theorem Fails.answered {raised : Raised} (h : Fails raised) {α : Type}
    {answer : Reply α → Answer Opened} (hanswer : Reports answer) (out : Option α) :
    ∃ err : GoError, reported raised = some err ∧ err ≠ .bare .ErrNotFound ∧
      answer (handed (.error raised) out) = .ok (.error err) := by
  obtain ⟨err, hne, herr⟩ := h
  rw [handed_error]
  exact ⟨err, herr, hne, hanswer herr⟩

end Failures

section Rules

variable {kv : StoreMap} {call : Served.Call (signature Opened) Fault} {m : Method}
  {flags : Flag → Bool} {l : Abi.Locals}

-- A call of `m` as it begins.
abbrev begun (m : Method) (before : Flag → Bool) : Served.Call (signature Opened) Fault :=
  ⟨m, before, []⟩

-- The calls of a crossing under the read side.
abbrev crossing (serves : Engine St) (contents : St → StoreMap) (kv : StoreMap)
    (flags : Flag → Bool) :
    Spec Abi.engineInterface (Served.Call (signature Opened) Fault × Option (Answer Opened)) :=
  Served.attempting (S := signature Opened) serves faulted (store kv) (Shows contents) flags

theorem program_wp {γ : Type} {Φ : Spec Abi.engineInterface γ} (c : FfiCall)
    {Q : c.Reply Opened → γ → Prop} {g : γ}
    (h : swp (Abi.storing Φ) c.entry.body (fun outcome _ gl => Q (c.reply outcome gl.2) gl.1) ()
      (g, .zero)) :
    wp Φ c.program Q g := by
  unfold FfiCall.program
  rw [wp_bind, Abi.wp_stored]
  simp only [Abi.Call.body, Abi.Body.on]
  rw [wp_bind]
  exact h

-- How a body goes on from a call of the engine.
def resumed {σ α β : Type} (f : α → Abi.Body σ β) : Except Payload α → Abi.Body σ β
  | .ok reply => f reply
  | .error payload => throw (.panic payload)

theorem swp_engine {γ σ β : Type} {Φ : Spec Abi.engineInterface γ} (c : Abi.EngineCall)
    (f : c.Reply → Abi.Body σ β) {Q : Except Raised β → σ → γ × Abi.Locals → Prop} {s : σ}
    {g : γ} (h : Φ c (fun r g => swp (Abi.storing Φ) (resumed f r) Q s (g, l)) g) :
    swp (Abi.storing Φ) (Abi.engine c >>= f) Q s (g, l) := by
  unfold Abi.engine Abi.act
  rw [swp_bind, swp_bind, swp_call]
  change Φ c _ g
  convert h using 2 with r
  cases r <;> rfl

-- What there is to show of one step of the engine under the read side.
def Comes (contents : St → StoreMap) (kv : StoreMap) (call : Served.Call (signature Opened) Fault)
    (flags : Flag → Bool) (step : St → St → Prop) (done : Option (Answer Opened))
    (Q : Option (Answer Opened) → Prop) : Prop :=
  ∃ done', (∀ now st x st', Shows contents flags st x → step st st' →
    ∃ x', Served.Effect (S := (signature Opened).over Abi.engineInterface) (store kv) call now x
      done done' x' ∧ Shows contents flags st' x') ∧ Q done'

section Comes

variable {step : St → St → Prop} {Q : Option (Answer Opened) → Prop}

-- It has the effect of the method, with the answer that the method then returns.
theorem comes_done (answer : Answer Opened) (hopen : flags .closed = false)
    (hdoes : ∀ {st st'}, step st st' →
      Does ⟨false, contents st⟩ call.method call.faults answer ⟨false, contents st'⟩)
    (hQ : Q (some answer)) : Comes contents kv call flags step none Q := by
  refine ⟨some answer, ?_, hQ⟩
  rintro now st x st' rfl hstep
  refine ⟨⟨false, contents st'⟩, .inr ⟨rfl, answer, rfl, ?_⟩, by rw [Shows, hopen]⟩
  rw [hopen]
  exact hdoes hstep

-- It has none, yet.
theorem comes_later {done : Option (Answer Opened)}
    (hkept : ∀ {st st'}, step st st' → contents st' = contents st) (hQ : Q done) :
    Comes contents kv call flags step done Q := by
  refine ⟨done, ?_, hQ⟩
  rintro now st x st' rfl hstep
  exact ⟨_, .inl ⟨rfl, rfl⟩, by rw [Shows, hkept hstep]⟩

-- The engine has failed.
theorem comes_failed (fault : Fault) (hopen : flags .closed = false) (hm : call.method ≠ .Close)
    (hfaults : call.faults = [fault]) {α : Type} {answer : Reply α → Answer Opened}
    (hanswer : Reports answer) (out : Option α)
    (hleft : ∀ {st st'}, step st st' → call.method.Leaves (contents st) (contents st'))
    (hQ : Q (some (answer (handed (.error fault.raised) out)))) :
    Comes contents kv call flags step none Q := by
  obtain ⟨err, herr, hne, hreply⟩ := fault.fails.answered hanswer out
  rw [hreply] at hQ
  refine comes_done _ hopen (fun hstep => ?_) hQ
  rw [hfaults]
  exact .failed hm herr hne (hleft hstep)

-- It never happens.
theorem comes_never {done : Option (Answer Opened)} (done' : Option (Answer Opened))
    (hnever : ∀ {st st'}, ¬step st st') (hQ : Q done') :
    Comes contents kv call flags step done Q :=
  ⟨done', fun _ _ _ _ _ hstep => absurd hstep hnever, hQ⟩

end Comes

-- What a call came to that the boundary hands on as it is.
def outcome : Except Payload (Except EngineError Unit) → Except Raised Unit
  | .ok (.ok ()) => .ok ()
  | .ok (.error error) => .error (.failure (.of_error error))
  | .error payload => .error (.panic payload)

theorem swp_outcome {γ : Type} {Φ : Spec Abi.engineInterface γ}
    {Q : Except Raised Unit → Unit → γ × Abi.Locals → Prop} {s : Unit} {g : γ}
    (r : Except Payload (Except EngineError Unit)) :
    swp (Abi.storing Φ) (resumed (Abi.checked .of_error) r) Q s (g, l) =
      Q (outcome r) s (g, l) := by
  rcases r with payload | error | ⟨⟩ <;> rfl

-- A command to the engine, that the boundary hands on as it is.
theorem comes_outcome (step : Except Payload (Except EngineError Unit) → St → St → Prop)
    {Q : Option (Answer Opened) → Prop} (r : Except Payload (Except EngineError Unit))
    {before : Flag → Bool} (hopen : flags .closed = false) (hm : m ≠ .Close)
    (hok : ∀ {st st'}, step (.ok (.ok ())) st st' →
      Does ⟨false, contents st⟩ m [] (.ok (.ok .nothing)) ⟨false, contents st'⟩)
    (hleft : ∀ {st st'}, step r st st' → m.Leaves (contents st) (contents st'))
    (hQ : Q (some (checked (handed (outcome r) (some ())) fun _ => .nothing))) :
    Comes contents kv ((begun m before).noting (erred r)) flags (step r) none Q := by
  rcases r with payload | error | ⟨⟩
  · exact comes_failed (.panic payload) hopen hm rfl (checked_reports _) _ hleft hQ
  · exact comes_failed (.error error) hopen hm rfl (checked_reports _) _ hleft hQ
  · exact comes_done _ hopen hok hQ

-- All of a crossing of `m`, that then returns `answer`.
def Crosses (serves : Engine St) (contents : St → StoreMap) (m : Method) (c : FfiCall)
    (answer : c.Reply Opened → Answer Opened) : Prop :=
  ∀ ⦃kv flags before⦄, flags Flag.closed = false →
    wp (crossing serves contents kv flags) c.program
      (fun reply g => g.2 = some (answer reply)) (begun m before, none)

theorem leaves_of_left {c : Abi.EngineCall} {st st' : StoreMap} {ops : List RawOp}
    (h : Left c st st') (hc : c ≠ .drop_all) (hwritten : written c st = applyOps st ops)
    (hops : m.ops = some ops) : m.Leaves st st' := by
  rcases h with h | h | ⟨h, -⟩
  · exact .inl h
  · exact .inr (.inl ⟨ops, hops, h.trans hwritten⟩)
  · exact absurd h hc

theorem set_crosses (hlaw : Lawful serves contents) (key value : Bytes) :
    Crosses serves contents (.Set key value) (.regolith_db_set (bytePtr key) (bytePtr value))
      fun reply => checked (α := Unit) reply fun _ => .nothing := by
  intro kv flags before hopen
  refine program_wp _ ?_
  simp only [FfiCall.entry, Abi.DbCall.body, Abi.regolith_db_set, in_bytes_bytePtr]
  refine swp_engine _ _ fun r => ?_
  refine comes_outcome (fun r st st' => serves st (.put key value) r st') r hopen nofun
    (fun {st st'} hstep => ?_) (fun hstep => leaves_of_left (hlaw.left hstep) nofun rfl rfl)
    ((swp_outcome r).mpr rfl)
  rw [hlaw.wrote hstep rfl]
  exact Does.wrote (show Method.ops (.Set key value) = some [.Set key value] from rfl)

theorem delete_crosses (hlaw : Lawful serves contents) (key : Bytes) :
    Crosses serves contents (.Delete key) (.regolith_db_delete (bytePtr key))
      fun reply => checked (α := Unit) reply fun _ => .nothing := by
  intro kv flags before hopen
  refine program_wp _ ?_
  simp only [FfiCall.entry, Abi.DbCall.body, Abi.regolith_db_delete, in_bytes_bytePtr]
  refine swp_engine _ _ fun r => ?_
  refine comes_outcome (fun r st st' => serves st (.delete key) r st') r hopen nofun
    (fun {st st'} hstep => ?_) (fun hstep => leaves_of_left (hlaw.left hstep) nofun rfl rfl)
    ((swp_outcome r).mpr rfl)
  rw [hlaw.wrote hstep rfl]
  exact Does.wrote (show Method.ops (.Delete key) = some [.Delete key] from rfl)

theorem drop_all_crosses (hlaw : Lawful serves contents) :
    Crosses serves contents .DropAll .regolith_db_drop_all
      fun reply => checked (α := Unit) reply fun _ => .nothing := by
  intro kv flags before hopen
  refine program_wp _ ?_
  simp only [FfiCall.entry, Abi.DbCall.body, Abi.regolith_db_drop_all]
  refine swp_engine _ _ fun r => ?_
  refine comes_outcome (fun r st st' => serves st .drop_all r st') r hopen nofun
    (fun {st st'} hstep => ?_) (fun hstep => ?_) ((swp_outcome r).mpr rfl)
  · rw [hlaw.wrote hstep rfl]
    exact .dropped
  · rcases hlaw.left hstep with h | h | ⟨-, h⟩
    · exact .inl h
    · exact .inr (.inr ⟨rfl, fun key => .inr (congrFun h key)⟩)
    · exact .inr (.inr ⟨rfl, h⟩)

-- A call of the engine that leaves the store as it was.
theorem kept_of_left {c : Abi.EngineCall} {st st' : StoreMap} (h : Left c st st')
    (hc : c ≠ .drop_all) (hwritten : written c st = st) : st' = st := by
  rcases h with h | h | ⟨h, -⟩
  · exact h
  · exact h.trans hwritten
  · exact absurd h hc

theorem get_crosses (hlaw : Lawful serves contents) (key : Bytes) :
    Crosses serves contents (.Get key) (.regolith_db_get_borrowed (bytePtr key))
      copyBorrowed := by
  intro kv flags before hopen
  refine program_wp _ ?_
  simp only [FfiCall.entry, Abi.DbCall.body, Abi.regolith_db_get_borrowed, in_bytes_bytePtr]
  refine swp_engine _ _ fun r => ?_
  have hkept : ∀ {st st'}, serves st (.get_slice key) r st' → contents st' = contents st :=
    fun hstep => kept_of_left (hlaw.left hstep) nofun rfl
  match r with
  | .error payload =>
    exact comes_failed (.panic payload) hopen nofun rfl copyBorrowed_reports none
      (fun hstep => .inl (hkept hstep)) rfl
  | .ok (.error error) =>
    exact comes_failed (.error error) hopen nofun rfl copyBorrowed_reports none
      (fun hstep => .inl (hkept hstep)) rfl
  | .ok (.ok none) =>
    refine comes_done (refuse .ErrNotFound) hopen (fun hstep => ?_) rfl
    rw [hkept hstep]
    exact .missing (hlaw.get hstep).symm
  | .ok (.ok (some value)) =>
    refine comes_done (copied value) hopen (fun hstep => ?_) ?_
    · rw [hkept hstep]
      exact .found (hlaw.get hstep).symm
    · change swp _ (Abi.out_borrowed value .writable .writable .writable) _ _ _
      simp only [Abi.out_borrowed]
      refine swp_engine _ _ fun r => ?_
      match r with
      | .error payload =>
        exact comes_never (some (copyBorrowed (handed (.error (.panic payload)) none)))
          (fun hstep => nomatch hlaw.view hstep) rfl
      | .ok () =>
        refine comes_later (fun hstep => kept_of_left (hlaw.left hstep) nofun rfl) ?_
        cases value with
        | nil => rfl
        | cons byte rest =>
          have hcopied : (copyBorrowed (handed (.ok ())
              (some ⟨(byte :: rest).take (byte :: rest).length, true⟩)) : Answer Opened) =
              copied (byte :: rest) := copyBorrowed_ok rfl List.take_length
          exact congrArg some hcopied.symm

theorem has_crosses (hlaw : Lawful serves contents) (key : Bytes) :
    Crosses serves contents (.Has key) (.regolith_db_has (bytePtr key))
      fun reply => checked (α := Bool) reply fun found => .found (found.getD false) := by
  intro kv flags before hopen
  refine program_wp _ ?_
  simp only [FfiCall.entry, Abi.DbCall.body, Abi.regolith_db_has, in_bytes_bytePtr]
  refine swp_engine _ _ fun r => ?_
  have hkept : ∀ {st st'}, serves st (.has key) r st' → contents st' = contents st :=
    fun hstep => kept_of_left (hlaw.left hstep) nofun rfl
  match r with
  | .error payload =>
    exact comes_failed (.panic payload) hopen nofun rfl (checked_reports _) none
      (fun hstep => .inl (hkept hstep)) rfl
  | .ok (.error error) =>
    exact comes_failed (.error error) hopen nofun rfl (checked_reports _) none
      (fun hstep => .inl (hkept hstep)) rfl
  | .ok (.ok found) =>
    refine comes_done (.ok (.ok (.found found))) hopen (fun hstep => ?_) rfl
    rw [hkept hstep, hlaw.has hstep]
    exact .has

theorem write_crosses (hlaw : Lawful serves contents) (b : WriteBatch) (hn : b.n ≠ 0) :
    Crosses serves contents (.Write (some b)) (.regolith_db_write (bytePtr b.buf))
      fun reply => checked (α := Unit) reply fun _ => .nothing := by
  intro kv flags before hopen
  refine program_wp _ ?_
  simp only [FfiCall.entry, Abi.DbCall.body, Abi.regolith_db_write, in_bytes_bytePtr]
  refine swp_engine _ _ fun r => ?_
  have hkept : ∀ {st st'}, serves st (.fill b.buf) r st' → contents st' = contents st :=
    fun hstep => kept_of_left (hlaw.left hstep) nofun rfl
  match r with
  | .error payload =>
    exact comes_failed (.panic payload) hopen nofun rfl (checked_reports _) none
      (fun hstep => .inl (hkept hstep)) rfl
  | .ok () =>
    cases hdecode : decode b.buf with
    | error fault =>
      obtain ⟨err, herr, -, hreply⟩ :=
        (opFault_fails fault).answered (checked_reports fun _ => .nothing) (none : Option Unit)
      refine comes_done _ hopen (fun hstep => ?_) (congrArg some hreply.symm)
      rw [hkept hstep]
      exact .malformed hn hdecode herr
    | ok batch =>
      have hops : Method.ops (.Write (some b)) = some batch.ops := by
        simp [Method.ops, hn, hdecode, Except.toOption]
      refine comes_later hkept ?_
      change swp _ (Abi.engine (.write batch) >>= Abi.checked .of_error) _ _ _
      refine swp_engine _ _ fun r => ?_
      refine comes_outcome (fun r st st' => serves st (.write batch) r st') r hopen nofun
        (fun {st st'} hstep => ?_) (fun hstep => leaves_of_left (hlaw.left hstep) nofun rfl hops)
        ((swp_outcome r).mpr rfl)
      rw [hlaw.wrote hstep rfl]
      exact .wrote hops

theorem iter_crosses (hlaw : Lawful serves contents) (opts : IterOptions) :
    Crosses serves contents (.NewIter opts) (.regolith_db_iter (newIterOptions opts))
      fun reply => .ok ((newIter reply opts).map .iter) := by
  intro kv flags before hopen
  refine program_wp _ ?_
  simp only [FfiCall.entry, Abi.DbCall.body, Abi.regolith_db_iter]
  refine swp_engine _ _ fun r => ?_
  have hkept : ∀ {st st'}, serves st .snapshot_iter r st' → contents st' = contents st :=
    fun hstep => kept_of_left (hlaw.left hstep) nofun rfl
  match r with
  | .error payload =>
    exact comes_failed (.panic payload) hopen nofun rfl (newIter_reports opts) none
      (fun hstep => .inl (hkept hstep)) rfl
  | .ok () =>
    let it : Abi.Iter := .over_snapshot Unit Unit () (bounds_from (some (newIterOptions opts)))
    refine comes_done (.ok (.ok (.iter (.opened it opts)))) hopen (fun hstep => ?_) rfl
    rw [hkept hstep]
    exact .iter

theorem txn_crosses (hlaw : Lawful serves contents) (readOnly : Bool) :
    Crosses serves contents (.NewTxn readOnly) (.regolith_db_txn (cBool readOnly))
      fun reply => checked (α := Unit) reply fun _ => .txn := by
  intro kv flags before hopen
  refine program_wp _ ?_
  simp only [FfiCall.entry, Abi.DbCall.body, Abi.regolith_db_txn]
  refine swp_engine _ _ fun r => ?_
  have hkept : ∀ {st st'}, serves st .isolation r st' → contents st' = contents st :=
    fun hstep => kept_of_left (hlaw.left hstep) nofun rfl
  match r with
  | .error payload =>
    exact comes_failed (.panic payload) hopen nofun rfl (checked_reports _) none
      (fun hstep => .inl (hkept hstep)) rfl
  | .ok isolation =>
    refine comes_later hkept ?_
    refine swp_engine (.begin_transaction_owned isolation) _ fun r => ?_
    have hkept : ∀ {st st'}, serves st (.begin_transaction_owned isolation) r st' →
        contents st' = contents st :=
      fun hstep => kept_of_left (hlaw.left hstep) nofun rfl
    match r with
    | .error payload =>
      exact comes_failed (.panic payload) hopen nofun rfl (checked_reports _) none
        (fun hstep => .inl (hkept hstep)) rfl
    | .ok () =>
      refine comes_done _ hopen (fun hstep => ?_) rfl
      rw [hkept hstep]
      exact .txn

end Rules

section Bodies

variable {m : Method} {kv : StoreMap} {before : Flag → Bool}

abbrev Places (serves : Engine St) (contents : St → StoreMap) (kv : StoreMap) (m : Method)
    (before : Flag → Bool) :=
  Served.Lin linked serves faulted (store kv) (Shows contents) (begun m before)

-- Every method but `Close`: what it comes to when the database is open.
theorem opened_lin (hm : m ≠ .Close) {next : Code Opened}
    (h : ∀ flags, flags Flag.closed = false →
      Comes contents kv (begun m before) flags (fun st st' => st' = st) none fun done =>
        Places serves contents kv m before (next.linked FfiCall.program) (.reading flags done)) :
    Places serves contents kv m before ((opened next).linked FfiCall.program) .before := by
  intro flags st x hx old hold
  refine ⟨rfl, ?_⟩
  obtain rfl : old = flags .closed := hold.own rfl
  cases hclosed : flags .closed with
  | true =>
    refine ⟨some (refuse .ErrClosed), ?_, rfl⟩
    rintro now st x - rfl
    refine ⟨_, .inr ⟨rfl, _, rfl, ?_⟩, rfl⟩
    rw [hclosed]
    exact .refused hm
  | false =>
    obtain ⟨done, heffect, hnext⟩ := h flags hclosed
    exact ⟨done, fun now st x _ hx => heffect now st x st hx rfl, hnext⟩

-- One crossing, and then what is made of the reply.
theorem crossing_lin {c : FfiCall} {answer : c.Reply Opened → Answer Opened}
    (h : Crosses serves contents m c answer) (hm : m ≠ .Close) :
    Places serves contents kv m before
      ((opened (.call c fun reply => .unlock .read (.ret (answer reply)))).linked
        FfiCall.program) .before :=
  opened_lin hm fun _ hopen =>
    comes_later (fun hstep => congrArg contents hstep) (Served.lin_after_reading (h hopen))

-- The calls of `Close`, which nothing else comes between.
abbrev closing (serves : Engine St) (kv : StoreMap) :
    Spec Abi.engineInterface (Served.Held (signature Opened) St Store Fault) :=
  Served.holding (S := signature Opened) (I := Abi.engineInterface) serves faulted (store kv)

-- What stands at their end.
def Closed (contents : St → StoreMap) (flags : Flag → Bool) (reply : Reply Unit)
    (g : Served.Held (signature Opened) St Store Fault) : Prop :=
  Shows contents flags g.engine g.x ∧ g.done = some (checked reply fun _ => .nothing)

-- The last call of the engine, by what it makes of the reply.
theorem closed_of {flags : Flag → Bool} {st st' : St} {outcome : Except Raised Unit}
    {call : Served.Call (signature Opened) Fault} (hm : call.method = .Close)
    (hclosed : flags .closed = true) (hkept : contents st' = contents st)
    (houtcome : outcome = .ok () ∧ call.faults = [] ∨
      ∃ faults fault, outcome = .error (Fault.raised fault) ∧ call.faults = faults ++ [fault]) :
    ∃ done' x', (∀ now, Served.Effect (S := (signature Opened).over Abi.engineInterface) (store kv)
      call now ⟨false, contents st⟩ none done' x') ∧
        Closed contents flags (handed outcome (some ())) ⟨call, st', x', done'⟩ := by
  have hshows : Shows contents flags st' ⟨true, contents st⟩ := by rw [Shows, hclosed, hkept]
  refine ⟨_, ⟨true, contents st⟩, fun now => .inr ⟨rfl, _, rfl, ?_⟩, hshows, rfl⟩
  change Does _ call.method call.faults _ _
  rw [hm]
  rcases houtcome with ⟨rfl, hfaults⟩ | ⟨faults, fault, rfl, hfaults⟩
  · rw [hfaults]
    exact .close
  · obtain ⟨err, herr, -, hreply⟩ :=
      fault.fails.answered (checked_reports fun _ => .nothing) (some ())
    rw [hfaults, hreply]
    exact .close_failed herr

theorem drop_closes (hlaw : Lawful serves contents) {flags : Flag → Bool} {st : St}
    (hclosed : flags .closed = true) {kv' : StoreMap} (hkept : contents st = kv')
    (result : Except EngineError Unit) :
    swp (Abi.storing (closing serves kv))
      (Abi.engine .drop >>= fun _ =>
        (Abi.checked id (result.mapError .of_error) : Abi.Body Unit Unit))
      (fun outcome _ gl =>
        Closed contents flags (FfiCall.reply outcome gl.2 .regolith_db_close) gl.1)
      () (⟨(begun .Close before).noting (erred (.ok result)), st, ⟨false, kv'⟩, none⟩, .zero) := by
  subst hkept
  refine swp_engine _ _ fun r st' hstep => ?_
  have hkept : contents st' = contents st := kept_of_left (hlaw.left hstep) nofun rfl
  rcases r with payload | ⟨⟩
  · rcases result with error | ⟨⟩
    · exact closed_of rfl hclosed hkept (.inr ⟨[.error error], .panic payload, rfl, rfl⟩)
    · exact closed_of rfl hclosed hkept (.inr ⟨[], .panic payload, rfl, rfl⟩)
  · rcases result with error | ⟨⟩
    · exact closed_of rfl hclosed hkept (.inr ⟨[], .error error, rfl, rfl⟩)
    · exact closed_of rfl hclosed hkept (.inl ⟨rfl, rfl⟩)

theorem close_crosses (hlaw : Lawful serves contents) {flags : Flag → Bool} {st : St}
    (hclosed : flags .closed = true) :
    wp (closing serves kv) (FfiCall.program .regolith_db_close) (Closed contents flags)
      ⟨begun .Close before, st, ⟨false, contents st⟩, none⟩ := by
  refine program_wp .regolith_db_close ?_
  simp only [FfiCall.entry, Abi.DbCall.body, Abi.regolith_db_close, Abi.dropping, Abi.attempt]
  rw [swp_bind, swp_followed]
  refine swp_engine _ _ fun r st' hstep => ?_
  have hkept : contents st' = contents st := kept_of_left (hlaw.left hstep) nofun rfl
  rcases r with payload | error | ⟨⟩
  · exact closed_of rfl hclosed hkept (.inr ⟨[], .panic payload, rfl, rfl⟩)
  · exact ⟨none, _, fun _ => .inl ⟨rfl, rfl⟩, drop_closes hlaw hclosed hkept (.error error)⟩
  · exact ⟨none, _, fun _ => .inl ⟨rfl, rfl⟩, drop_closes hlaw hclosed hkept (.ok ())⟩

theorem close_lin (hlaw : Lawful serves contents) :
    Places serves contents kv .Close before (Close.linked FfiCall.program) .before := by
  intro flags st x hx old hold
  obtain rfl : x = ⟨flags .closed, contents st⟩ := hx
  obtain rfl : old = flags .closed := hold.own rfl
  refine ⟨nofun, ?_⟩
  cases hflag : flags .closed with
  | true =>
    refine ⟨some (.ok (.ok .nothing)), _, fun _ _ => .inr ⟨rfl, _, rfl, .closed_again⟩, ?_, rfl⟩
    exact congrArg (Store.mk · _) (Function.update_self Flag.closed true flags).symm
  | false =>
    refine ⟨none, _, fun _ _ => .inl ⟨rfl, rfl⟩, Served.lin_after_writing (close_crosses hlaw ?_)⟩
    exact Function.update_self ..

-- Nothing to write is written at once.
theorem opened_writes_nothing (hops : m.ops = some []) :
    Places serves contents kv m before
      ((opened (.unlock .read (.ret (.ok (.ok .nothing))))).linked FfiCall.program) .before := by
  refine opened_lin (fun h => by simp [h, Method.ops] at hops) fun flags hopen => ?_
  refine comes_done (.ok (.ok .nothing)) hopen (fun hstep => ?_) rfl
  rw [hstep]
  exact .wrote hops

theorem write_lin (hlaw : Lawful serves contents) (b : Option WriteBatch) :
    Places serves contents kv (.Write b) before ((Write b).linked FfiCall.program) .before := by
  cases b with
  | none => exact opened_writes_nothing rfl
  | some batch =>
    by_cases hn : batch.n = 0
    · simp only [Write, hn, if_true]
      exact opened_writes_nothing (by simp [Method.ops, hn])
    · simp only [Write, hn, if_false]
      exact crossing_lin (write_crosses hlaw batch hn) nofun

theorem body_lin (hlaw : Lawful serves contents) (m : Method) :
    Places serves contents kv m before (linked.body m) .before := by
  cases m with
  | Get key => exact crossing_lin (get_crosses hlaw key) nofun
  | Has key => exact crossing_lin (has_crosses hlaw key) nofun
  | Set key value => exact crossing_lin (set_crosses hlaw key value) nofun
  | Delete key => exact crossing_lin (delete_crosses hlaw key) nofun
  | Write b => exact write_lin hlaw b
  | DropAll => exact crossing_lin (drop_all_crosses hlaw) nofun
  | NewIter opts => exact crossing_lin (iter_crosses hlaw opts) nofun
  | NewTxn readOnly => exact crossing_lin (txn_crosses hlaw readOnly) nofun
  | Close => exact close_lin hlaw

end Bodies

theorem linearized (hlaw : Lawful serves contents) (engine : St) :
    Served.Linearized linked serves faulted (store (contents engine)) (Shows contents) engine where
  first := rfl
  lowered _ h := nomatch h
  congr hflags hx := hx.trans (congrArg (Store.mk · _) (hflags .closed rfl).symm)
  bodies m _ := body_lin hlaw m

end Regolith.Go.Shared.DB
