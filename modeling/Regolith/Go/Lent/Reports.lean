import Regolith.Go.Lent.Serving

-- What a method returns of the status that it was last told.
namespace Regolith.Go.Lent

open Ffi Lending Program

-- What a method returns once it got a report: as `fine` has it, of the bytes lent, where the
-- status is OK, and otherwise an error that says what the report did.
def Answers (fine : Bytes → Except Crash (Option GoError) → Prop)
    (result : Except Crash (Option GoError)) (last : Last) : Prop :=
  if last.status = OK then fine last.given result
  else ∃ err, result = .ok (some err) ∧ err.Says last.status (last.message.getD "")

def NoError (_given : Bytes) (result : Except Crash (Option GoError)) : Prop := result = .ok none

-- What a method returns of a status that is OK.
def Method.Fine : Method → Bytes → Except Crash (Option GoError) → Prop
  | .Iter _ (.BorrowValue fn) => fun given result =>
      result = fn (if given.length = 0 then none else some given)
  | _ => NoError

-- Bytes whose length a `C.int` does not make negative.
def Copyable (given : Bytes) : Prop := given.length % 2 ^ 32 < 2 ^ 31

-- A frame of which the part that is copied is made of records.
def Parsable (given : Bytes) : Prop :=
  Copyable given ∧ ∃ rounds, Records (given.take (given.length % 2 ^ 32)) rounds 0

-- What a method that copies the bytes lent to it asks of them.
def Method.Fits : Method → Bytes → Prop
  | .DB _ (.Get _) | .Txn _ (.Get _) | .Iter _ .Value => Copyable
  | .Iter _ .Next | .Iter _ (.Seek _) => Parsable
  | _ => fun _ => True

-- No error exactly where the bytes fit, which they do if there are fewer than 2 GiB of them.
def Copied (fits : Bytes → Prop) (given : Bytes) (result : Except Crash (Option GoError)) : Prop :=
  (NoError given result ↔ fits given) ∧ (given.length < 2 ^ 31 → fits given)

section Copied

variable {given : Bytes} {fits : Bytes → Prop}

theorem copied_ok (h : fits given) : Copied fits given (.ok none) :=
  ⟨iff_of_true rfl h, fun _ => h⟩

theorem copied_crash {crash : Crash} (h : ¬fits given) (hshort : given.length < 2 ^ 31 → fits given) :
    Copied fits given (.error crash) := ⟨iff_of_false nofun h, hshort⟩

theorem copyable_of_lt (h : given.length < 2 ^ 31) : Copyable given := by
  rw [Copyable]
  omega

theorem GoBytes_copyable (h : Copyable given) :
    Go.GoBytes given (.ofNat given.length) = .ok (given.take (given.length % 2 ^ 32)) := by
  rw [Copyable] at h
  rw [GoBytes_narrowed, if_pos h]

theorem GoBytes_crash (h : ¬Copyable given) :
    Go.GoBytes given (.ofNat given.length) = .error (.panic "gobytes: length out of range") := by
  rw [Copyable] at h
  rw [GoBytes_narrowed, if_neg h]

theorem copyable_nil : Copyable [] := copyable_of_lt (by simp)

theorem parsable_nil : Parsable [] := ⟨copyable_nil, 0, .past (by simp)⟩

theorem parsable_iff (h : Copyable given) :
    Parsable given ↔ ∃ ents, parse (given.take (given.length % 2 ^ 32))
      (given.take (given.length % 2 ^ 32)).length 0 [] = .ok ents :=
  ⟨fun hparsable => parse_ends_iff.mpr hparsable.2, fun hparse => ⟨h, parse_ends_iff.mp hparse⟩⟩

theorem parsable_pack {keys : List Bytes}
    (h : (PrefixCode.pack key_record keys).length < 2 ^ 31) :
    Parsable (PrefixCode.pack key_record keys) := by
  refine ⟨copyable_of_lt h, ?_⟩
  rw [Nat.mod_eq_of_lt (by omega), List.take_length]
  exact records_pack h

end Copied

section Rules

variable {α β : Type} {g : Option Last} {c : FfiCall} {last : Last}

-- A program that gets no report, and reads nothing that was lent.
abbrev Passive (p : Code α) : Prop := Keeps serving p

theorem passive_call (h : ∀ r, c.form.told r = none) : Passive (call c) := by
  rintro Q g hQ r g' hserves
  simp only [Serves, h] at hserves
  exact hserves ▸ hQ _

theorem serving_release (o : Obj) {next : Unit → Prog signature.interface α}
    {Q : α → Option Last → Prop} (h : wp serving (next ()) Q g) :
    wp serving (.call (.release o) next) Q g := by
  rintro r g' ⟨rfl⟩
  exact h

-- What is in memory that was lent.
def Reads (last : Last) (memory : Option (Code Bytes)) : Prop :=
  ∀ m ∈ memory, ∀ ⦃Q : Except Crash Bytes → Option Last → Prop⦄,
    Q (.ok last.given) (some last) → wp serving m Q (some last)

theorem valueAt_reads (last : Last) : Reads last (valueAt last.ptr) := by
  intro m hm Q hQ
  obtain ⟨id, hptr, rfl⟩ := Option.mem_map.mp hm
  rintro bytes g' ⟨rfl, hbytes⟩
  obtain rfl := hbytes last rfl hptr
  exact hQ

theorem frameAt_reads (last : Last) (length : Nat) : Reads last (frameAt last.ptr length) := by
  intro m hm Q hQ
  obtain ⟨id, hptr, rfl⟩ := Option.mem_map.mp hm
  rintro bytes g' ⟨rfl, hbytes⟩
  obtain rfl := hbytes last rfl hptr
  exact hQ

-- As over the memory that holds the bytes lent.
theorem GoBytes_reads {memory : Option (Code Bytes)} (hreads : Reads last memory)
    (hsome : last.given ≠ [] → memory.isSome) {Q : Except Crash Bytes → Option Last → Prop}
    (hQ : Q (Go.GoBytes last.given (.ofNat last.given.length)) (some last)) :
    wp serving (GoBytes memory (.ofNat last.given.length)) Q (some last) := by
  unfold GoBytes
  split_ifs with hsign
  · have hsame : Go.GoBytes [] (.ofNat last.given.length) =
        Go.GoBytes last.given (.ofNat last.given.length) := by
      simp only [Go.GoBytes, Int.toNat_of_nonpos hsign, List.take_nil, List.take_zero]
    rw [hsame]
    exact hQ
  · have hgiven : last.given ≠ [] := fun h => hsign (by simp [h])
    obtain ⟨m, rfl⟩ := Option.isSome_iff_exists.mp (hsome hgiven)
    dsimp only
    rw [wp_code_bind]
    exact hreads m rfl hQ

-- A report that a call has made.
def Last.Reported (last : Last) : Prop :=
  (∃ c ws, Report c last.status last.message ws) ∧ (last.cerr.isSome ↔ last.message.isSome)

-- A report, and the detail that comes with it as `statusToErr` finds it.
theorem call_reports {status : c.Reply → Status} {cerr ptr : c.Reply → Ptr}
    (htold : ∀ r, c.form.told r = some (status r, cerr r, ptr r))
    {Q : Except Crash c.Reply → Option Last → Prop}
    (hQ : ∀ r message given, Last.Reported ⟨status r, cerr r, message, ptr r, given⟩ →
      (status r = OK → c.form.Lends ⟨status r, cerr r, message, ptr r, given⟩ r) →
      Q (.ok r) (some ⟨status r, cerr r, message, ptr r, given⟩)) :
    wp serving (call c) Q g := by
  intro r g' hserves
  simp only [Serves, htold] at hserves
  obtain ⟨message, ws, hreport, hcerr, hholds, rfl⟩ := hserves
  exact hQ r message _ ⟨⟨c, ws, hreport⟩, hcerr⟩ fun hstatus =>
    hreport.lends hstatus hholds (htold r)

theorem statusToErr_reports (hlast : last.Reported)
    {Q : Except Crash (Option GoError) → Option Last → Prop}
    (hok : last.status = OK → Q (.ok none) (some last))
    (herr : ∀ err : GoError, last.status ≠ OK → err.Says last.status (last.message.getD "") →
      Q (.ok (some err)) (some last)) :
    wp serving (statusToErr last.status last.cerr) Q (some last) := by
  obtain ⟨⟨c, ws, hreport⟩, hcerr⟩ := hlast
  have hQ : Q (.ok (Go.statusToErr last.status last.message)) (some last) := by
    by_cases hstatus : last.status = OK
    · rw [(statusToErr_eq_none_iff last.status last.message).mpr hstatus]
      exact hok hstatus
    · obtain ⟨err, heq, hsays⟩ := statusToErr_says hstatus hreport.message_of
      rw [heq]
      exact herr err hstatus hsays
  unfold statusToErr
  rw [wp_code_bind]
  cases hdetail : last.cerr with
  | none =>
    have hnone : last.message = none := by simpa [hdetail] using hcerr
    rw [hnone] at hQ
    exact hQ
  | some id =>
    rintro text g' ⟨rfl, htext⟩ _ g'' ⟨rfl⟩
    rw [htext _ rfl hdetail] at hQ
    exact hQ

end Rules

section Methods

variable {α : Type} {err : α → Option GoError}
  {fine fine' : Bytes → Except Crash (Option GoError) → Prop} {last : Last}

-- A program that gets a report, and heeds the last one.
def Tells (err : α → Option GoError) (fine : Bytes → Except Crash (Option GoError) → Prop)
    (p : Code α) : Prop :=
  ∀ ⦃Q : Except Crash α → Option Last → Prop⦄ ⦃g⦄,
    (∀ result last, Answers fine (result.map err) last → Q result (some last)) →
      wp serving p Q g

-- One that may return without any.
def Heeds (err : α → Option GoError) (fine : Bytes → Except Crash (Option GoError) → Prop)
    (p : Code α) : Prop :=
  ∀ ⦃Q : Except Crash α → Option Last → Prop⦄,
    (∀ result g, (∀ last ∈ g, Answers fine (result.map err) last) → Q result g) →
      wp serving p Q none

-- What comes after a report that is OK.
def Settles (err : α → Option GoError) (fine : Bytes → Except Crash (Option GoError) → Prop)
    (last : Last) (p : Code α) : Prop :=
  ∀ ⦃Q : Except Crash α → Option Last → Prop⦄, last.status = OK →
    (∀ result last, Answers fine (result.map err) last → Q result (some last)) →
      wp serving p Q (some last)

theorem answers_ok {result : Except Crash (Option GoError)} (hlast : last.status = OK)
    (h : fine last.given result) : Answers fine result last := by
  rw [Answers, if_pos hlast]
  exact h

theorem answers_error {a : α} {e : GoError} (hlast : last.status ≠ OK) (ha : err a = some e)
    (h : e.Says last.status (last.message.getD "")) :
    Answers fine ((.ok a : Except Crash α).map err) last := by
  rw [Answers, if_neg hlast]
  exact ⟨e, congrArg Except.ok ha, h⟩

theorem Answers.mono {result : Except Crash (Option GoError)} (h : Answers fine result last)
    (hfine : ∀ given result, fine given result → fine' given result) :
    Answers fine' result last := by
  unfold Answers at *
  split_ifs at *
  · exact hfine _ _ h
  · exact h

theorem Tells.heeds {p : Code α} (h : Tells err fine p) : Heeds err fine p :=
  fun _ hQ => h fun result last hanswers => hQ result _ fun _ hlast => by
    cases hlast
    exact hanswers

theorem Tells.settles {p : Code α} (h : Tells err fine p) : Settles err fine last p :=
  fun _ _ hQ => h hQ

theorem Heeds.mono {p : Code α} (h : Heeds err fine p)
    (hfine : ∀ given result, fine given result → fine' given result) : Heeds err fine' p :=
  fun _ hQ => h fun result g hg => hQ result g fun last hlast => (hg last hlast).mono hfine

theorem heeds_of_passive {p : Code α} (h : Passive p) : Heeds err fine p :=
  fun _ hQ => h fun result => hQ result _ nofun

theorem heeds_if {p : Prop} [Decidable p] {refused next : Code α}
    (hrefused : Passive refused) (hnext : Heeds err fine next) :
    Heeds err fine (if p then refused else next) := by
  split_ifs
  · exact heeds_of_passive hrefused
  · exact hnext

theorem settles_ofExcept {result : Except Crash α} (h : fine last.given (result.map err)) :
    Settles err fine last (Code.ofExcept result) :=
  fun _ hlast hQ => hQ _ _ (answers_ok hlast h)

theorem settles_pure {a : α} (h : fine last.given (.ok (err a))) :
    Settles err fine last (pure a) :=
  settles_ofExcept h

-- The error is handed on, whatever else is returned.
theorem Heeds.map {β : Type} {err' : β → Option GoError} {p : Code α} {f : α → Code β}
    (hp : Heeds err fine p) (hf : ∀ a, ∃ b, f a = pure b ∧ err' b = err a) :
    Heeds err' fine (p >>= f) := by
  intro Q hQ
  rw [wp_code_bind]
  refine hp fun result g hg => ?_
  cases result with
  | error crash => exact hQ _ g hg
  | ok a =>
    obtain ⟨b, hb, herr⟩ := hf a
    dsimp only
    rw [hb]
    refine hQ (.ok b) g fun last hlast => ?_
    rw [Except.map, herr]
    exact hg last hlast

-- A call, and `statusToErr` right after it.
theorem reported_tells {c : FfiCall} {status : c.Reply → Status} {cerr ptr : c.Reply → Ptr}
    {next : c.Reply → Option GoError → Code α}
    (htold : ∀ r, c.form.told r = some (status r, cerr r, ptr r))
    (hrefused : ∀ r e, ∃ a, next r (some e) = pure a ∧ err a = some e)
    (hok : ∀ r last, c.form.Lends last r → Settles err fine last (next r none)) :
    Tells err fine (call c >>= fun r => statusToErr (status r) (cerr r) >>= next r) := by
  intro Q g hQ
  rw [wp_code_bind]
  refine call_reports htold fun r message given hlast hlends => ?_
  dsimp only
  rw [wp_code_bind]
  refine statusToErr_reports hlast (fun hstatus => ?_) fun e hstatus hsays => ?_
  · exact hok r _ (hlends hstatus) hstatus hQ
  · obtain ⟨a, hnext, ha⟩ := hrefused r e
    dsimp only
    rw [hnext]
    exact hQ _ _ (answers_error hstatus ha hsays)

theorem report_tells {c : FfiCall} {status : c.Reply → Status} {cerr ptr : c.Reply → Ptr}
    (htold : ∀ r, c.form.told r = some (status r, cerr r, ptr r)) :
    Tells id NoError (call c >>= fun r => statusToErr (status r) (cerr r)) := by
  intro Q g hQ
  rw [wp_code_bind]
  refine call_reports htold fun r message given hlast _ => ?_
  refine statusToErr_reports hlast (fun hstatus => ?_) fun e hstatus hsays => ?_
  · exact hQ _ _ (answers_ok hstatus rfl)
  · exact hQ _ _ (answers_error hstatus rfl hsays)

section Copies

theorem settles_copy (last : Last) :
    Settles (α := Option Bytes × Option GoError) (·.2) (Copied Copyable) last
      (Code.ofExcept (Go.GoBytes last.given (.ofNat last.given.length)) >>= fun bytes =>
        pure (some bytes, none)) := by
  intro Q hstatus hQ
  rw [wp_code_bind]
  by_cases hcopyable : Copyable last.given
  · rw [GoBytes_copyable hcopyable]
    exact hQ _ _ (answers_ok hstatus (copied_ok hcopyable))
  · rw [GoBytes_crash hcopyable]
    exact hQ _ _ (answers_ok hstatus (copied_crash hcopyable copyable_of_lt))

theorem copyValue_reports {r : ValueOut} (hlast : last.Reported)
    (hlends : last.status = OK → Out.value.Lends last r)
    {Q : Except Crash (Option Bytes × Option GoError) → Option Last → Prop}
    (hQ : ∀ result last, Answers (Copied Copyable) (result.map (·.2)) last → Q result (some last)) :
    wp serving (copyValue r.val r.valLen last.status last.cerr) Q (some last) := by
  unfold copyValue
  rw [wp_code_bind]
  refine statusToErr_reports hlast (fun hstatus => ?_) fun e hstatus hsays => ?_
  · obtain ⟨hptr, hlen, hsome⟩ := hlends hstatus
    rw [hptr] at hsome
    dsimp only
    rw [hptr, hlen]
    split_ifs with hempty
    · exact hQ _ _ (answers_ok hstatus (copied_ok (copyable_of_lt (by omega))))
    · have hcopy := settles_copy last hstatus hQ
      rw [wp_code_bind] at hcopy ⊢
      exact GoBytes_reads (valueAt_reads last) (fun h => by simpa [valueAt] using hsome h) hcopy
  · exact hQ _ _ (answers_error hstatus rfl hsays)

theorem copyBorrowed_reports {r : ValueOut} (hlast : last.Reported)
    (hlends : last.status = OK → Out.value.Lends last r)
    {Q : Except Crash (Option Bytes × Option GoError) → Option Last → Prop}
    (hQ : ∀ result last, Answers (Copied Copyable) (result.map (·.2)) last → Q result (some last)) :
    wp serving (copyBorrowed r.val r.valLen r.handle last.status last.cerr) Q (some last) := by
  cases hhandle : r.handle with
  | none => exact copyValue_reports hlast hlends hQ
  | some handle =>
    unfold copyBorrowed
    rw [wp_defer]
    refine copyValue_reports hlast hlends fun result last hanswers => ?_
    exact serving_release _ (hQ result last hanswers)

theorem takeBuf_reports {r : BatchOut} (hlast : last.Reported)
    (hlends : last.status = OK → Out.batch.Lends last r)
    {Q : Except Crash (Bytes × Option GoError) → Option Last → Prop}
    (hok : last.status = OK →
      Q ((Go.GoBytes last.given (.ofNat last.given.length)).map (·, none)) (some last))
    (herr : ∀ e : GoError, last.status ≠ OK → e.Says last.status (last.message.getD "") →
      Q (.ok ([], some e)) (some last)) :
    wp serving (takeBuf r.out r.outLen last.status last.cerr) Q (some last) := by
  unfold takeBuf
  rw [wp_code_bind]
  refine statusToErr_reports hlast (fun hstatus => ?_) herr
  obtain ⟨⟨hptr, hlen, hsome⟩, -⟩ := hlends hstatus
  specialize hok hstatus
  rw [hptr] at hsome
  dsimp only
  rw [hptr, hlen]
  split_ifs with hempty
  · rw [List.length_eq_zero_iff.mp hempty] at hok
    exact hok
  · have hfree (result : Except Crash (Bytes × Option GoError)) (h : Q result (some last)) :
        wp serving (regolith_free_buf last.ptr last.given.length) (fun _ => Q result)
          (some last) := by
      cases last.ptr with
      | none => exact h
      | some id => exact serving_release _ h
    rw [wp_defer, wp_code_bind]
    refine GoBytes_reads (frameAt_reads last _) (fun h => by simpa [frameAt] using hsome h) ?_
    cases hbytes : Go.GoBytes last.given (.ofNat last.given.length) with
    | ok bytes =>
      rw [hbytes] at hok
      exact hfree _ hok
    | error crash =>
      rw [hbytes] at hok
      exact hfree _ hok

end Copies

theorem OpenWith_heeds (path : Bytes) (opts : Options) :
    Heeds (·.2) NoError (OpenWith path opts) := by
  unfold OpenWith
  split
  · exact heeds_of_passive (keeps_pure _)
  · refine (reported_tells (fun _ => rfl) (fun r e => ⟨(none, some e), rfl, rfl⟩)
      fun r _ _ => ?_).heeds
    exact settles_pure rfl

namespace iterOptions

theorem dup_passive (o : iterOptions) (b : Bytes) : Passive (o.dup b) := by
  refine keeps_if (keeps_pure _) ?_
  exact (passive_call fun _ => rfl).bind fun _ => keeps_pure _

theorem newIterOptions_passive (opts : IterOptions) : Passive (newIterOptions opts) := by
  refine (passive_call fun _ => rfl).bind fun ptr => ?_
  refine (dup_passive _ _).bind fun _ => (dup_passive _ _).bind fun _ => ?_
  exact (dup_passive _ _).bind fun _ => keeps_pure _

theorem freeBufs_passive {next : Prog signature.interface Unit} {Q : Unit → Option Last → Prop}
    {g : Option Last} (hnext : wp serving next Q g) (ptrs : List Nat) :
    wp serving (freeBufs ptrs next) Q g := by
  induction ptrs with
  | nil => exact hnext
  | cons ptr ptrs ih => exact serving_release _ ih

theorem free_passive (o : iterOptions) {Q : Unit → Option Last → Prop} {g : Option Last}
    (hQ : Q () g) : wp serving o.free Q g := by
  refine freeBufs_passive ?_ o.bufs
  exact serving_release _ hQ

end iterOptions

theorem openIter_heeds {opts : IterOptions} {cross : iterOptions → Code (Handed Ptr)}
    (hcross : ∀ o {g : Option Last} {Q : Except Crash (Handed Ptr) → Option Last → Prop},
      (∀ (r : Handed Ptr) message given,
        Last.Reported ⟨r.status, r.cerr, message, none, given⟩ →
          Q (.ok r) (some ⟨r.status, r.cerr, message, none, given⟩)) →
      wp serving (cross o) Q g) :
    Heeds (·.2) NoError (openIter opts cross) := by
  intro Q hQ
  have htold {result last} (h : Answers NoError (result.map (·.2)) last) :
      Q result (some last) := hQ result _ fun _ hlast => by
    cases hlast
    exact h
  unfold openIter
  rw [wp_code_bind]
  refine iterOptions.newIterOptions_passive opts fun result => ?_
  cases result with
  | error crash => exact hQ _ _ nofun
  | ok o =>
    dsimp only
    rw [wp_defer, wp_code_bind]
    refine hcross o fun r message given hlast => ?_
    dsimp only
    rw [wp_code_bind]
    refine statusToErr_reports hlast (fun hstatus => ?_) fun e hstatus hsays => ?_
    · refine o.free_passive (htold ?_)
      exact answers_ok hstatus rfl
    · exact o.free_passive (htold (answers_error hstatus rfl hsays))

namespace DB

variable (db : DB)

theorem Get_heeds (key : Bytes) : Heeds (·.2) (Copied Copyable) (db.Get key) := by
  refine heeds_if (keeps_pure _) (Tells.heeds fun Q g hQ => ?_)
  rw [wp_code_bind]
  refine call_reports (fun _ => rfl) fun (r : Handed ValueOut) message given hlast hlends => ?_
  exact copyBorrowed_reports hlast hlends hQ

theorem Has_heeds (key : Bytes) : Heeds (·.2) NoError (db.Has key) := by
  refine heeds_if (keeps_pure _) (Tells.heeds ?_)
  refine reported_tells (fun _ => rfl) (fun r e => ⟨(false, some e), rfl, rfl⟩) fun r _ _ => ?_
  exact settles_pure rfl

theorem Set_heeds (key value : Bytes) : Heeds id NoError (db.Set key value) :=
  heeds_if (keeps_pure _) (report_tells fun _ => rfl).heeds

theorem Delete_heeds (key : Bytes) : Heeds id NoError (db.Delete key) :=
  heeds_if (keeps_pure _) (report_tells fun _ => rfl).heeds

theorem Write_heeds (b : Option WriteBatch) : Heeds id NoError (db.Write b) := by
  refine heeds_if (keeps_pure _) ?_
  cases b with
  | none => exact heeds_of_passive (keeps_pure _)
  | some batch => exact heeds_if (keeps_pure _) (report_tells fun _ => rfl).heeds

theorem DropAll_heeds : Heeds id NoError db.DropAll :=
  heeds_if (keeps_pure _) (report_tells fun _ => rfl).heeds

theorem Close_heeds : Heeds (·.1) NoError db.Close := by
  refine heeds_if (keeps_pure _) (Tells.heeds ?_)
  refine reported_tells (fun _ => rfl) (fun r e => ⟨(some e, _), rfl, rfl⟩) fun r _ _ => ?_
  exact settles_pure rfl

theorem NewIter_heeds (opts : IterOptions) : Heeds (·.2) NoError (db.NewIter opts) := by
  refine heeds_if (keeps_pure _) (openIter_heeds fun o g Q hQ => ?_)
  exact call_reports (fun _ => rfl) fun (r : Handed Ptr) message given hlast _ =>
    hQ r message given hlast

theorem NewTxn_heeds (readOnly : Bool) : Heeds (·.2) NoError (db.NewTxn readOnly) := by
  refine heeds_if (keeps_pure _) (Tells.heeds ?_)
  refine reported_tells (fun _ => rfl) (fun r e => ⟨(none, some e), rfl, rfl⟩) fun r _ _ => ?_
  exact settles_pure rfl

end DB

theorem heeds_begin {t : Txn} {refused : GoError → Code α} {next : Code α}
    (hrefused : ∀ e, Passive (refused e)) (hnext : Heeds err fine next) :
    Heeds err fine (match t.begin with
      | some e => refused e
      | none => next) := by
  cases t.begin with
  | some e => exact heeds_of_passive (hrefused e)
  | none => exact hnext

namespace Txn

variable (t : Txn)

theorem Get_heeds (key : Bytes) : Heeds (·.2) (Copied Copyable) (t.Get key) := by
  refine heeds_begin (fun _ => keeps_pure _) (Tells.heeds fun Q g hQ => ?_)
  rw [wp_code_bind]
  refine call_reports (fun _ => rfl) fun (r : Handed ValueOut) message given hlast hlends => ?_
  exact copyBorrowed_reports hlast hlends hQ

theorem Has_heeds (key : Bytes) : Heeds (·.2) NoError (t.Has key) := by
  refine heeds_begin (fun _ => keeps_pure _) (Tells.heeds ?_)
  refine reported_tells (fun _ => rfl) (fun r e => ⟨(false, some e), rfl, rfl⟩) fun r _ _ => ?_
  exact settles_pure rfl

theorem Set_heeds (key value : Bytes) : Heeds id NoError (t.Set key value) :=
  heeds_begin (fun _ => keeps_pure _) (report_tells fun _ => rfl).heeds

theorem Delete_heeds (key : Bytes) : Heeds id NoError (t.Delete key) :=
  heeds_begin (fun _ => keeps_pure _) (report_tells fun _ => rfl).heeds

theorem NewIter_heeds (opts : IterOptions) : Heeds (·.2) NoError (t.NewIter opts) := by
  refine heeds_begin (fun _ => keeps_pure _) (openIter_heeds fun o g Q hQ => ?_)
  exact call_reports (fun _ => rfl) fun (r : Handed Ptr) message given hlast _ =>
    hQ r message given hlast

theorem Commit_heeds : Heeds (·.1) NoError t.Commit := by
  refine heeds_if (keeps_pure _) (heeds_if (keeps_pure _) (Tells.heeds ?_))
  refine reported_tells (fun _ => rfl) (fun r e => ⟨(some e, _), rfl, rfl⟩) fun r _ _ => ?_
  exact settles_pure rfl

theorem Discard_passive : Passive t.Discard :=
  keeps_if (keeps_pure _) ((passive_call fun _ => rfl).bind fun _ => keeps_pure _)

end Txn

namespace Iter

variable (it : Iter)

theorem refill_tells : Tells (·.1.2) (Copied Parsable) it.refill := by
  intro Q g hQ
  unfold refill
  rw [wp_code_bind]
  refine call_reports (fun _ => rfl) fun (r : Handed BatchOut) message given hlast hlends => ?_
  dsimp only
  rw [wp_code_bind]
  refine takeBuf_reports hlast hlends (fun hstatus => ?_) fun e hstatus hsays => ?_
  · obtain ⟨-, keys, hgiven, hcount⟩ := hlends hstatus
    obtain rfl : given = PrefixCode.pack key_record keys := hgiven
    have hanswers {result : Except Crash ((Bool × Option GoError) × Iter)}
        (h : Copied Parsable (PrefixCode.pack key_record keys) (result.map (·.1.2))) :
        Q result (some _) := hQ _ _ (answers_ok hstatus h)
    dsimp only
    by_cases hcopyable : Copyable (PrefixCode.pack key_record keys)
    · rw [GoBytes_copyable hcopyable]
      change wp serving (if r.out.count = 0 then _ else _) Q _
      split_ifs with hnone
      · obtain rfl : keys = [] := List.length_eq_zero_iff.mp (hcount ▸ hnone)
        exact hanswers (copied_ok parsable_nil)
      · rw [wp_code_bind, wp_ofExcept]
        have hparse := parsable_iff hcopyable
        cases hents : parse ((PrefixCode.pack key_record keys).take _) _ 0 [] with
        | ok ents => exact hanswers (copied_ok (hparse.mpr ⟨ents, hents⟩))
        | error crash =>
          refine hanswers (copied_crash (fun h => ?_) parsable_pack)
          obtain ⟨ents, hok⟩ := hparse.mp h
          cases hents.symm.trans hok
    · rw [GoBytes_crash hcopyable]
      exact hanswers (copied_crash (fun h => hcopyable h.1) parsable_pack)
  · exact hQ _ _ (answers_error hstatus rfl hsays)

theorem Next_heeds : Heeds (·.1.2) (Copied Parsable) it.Next := by
  refine heeds_if (keeps_pure _) (heeds_if (keeps_pure _) (heeds_if (keeps_pure _) ?_))
  exact it.refill_tells.heeds

theorem Seek_heeds (key : Bytes) : Heeds (·.1.2) (Copied Parsable) (it.Seek key) := by
  refine heeds_if (keeps_pure _) (Tells.heeds ?_)
  refine reported_tells (fun _ => rfl) (fun r e => ⟨((false, some e), _), rfl, rfl⟩)
    fun r last hlends => ?_
  dsimp only
  split_ifs
  · refine settles_pure (copied_ok ?_)
    rw [show last.given = [] from hlends]
    exact parsable_nil
  · exact (refill_tells _).settles

theorem Reset_passive : Passive it.Reset :=
  (passive_call fun _ => rfl).bind fun _ => keeps_pure _

theorem Key_passive : Passive it.Key := by
  unfold Key
  split
  · exact keeps_pure _
  · exact keeps_ofExcept _

theorem Value_heeds : Heeds (·.2) (Copied Copyable) it.Value := by
  refine heeds_if (keeps_pure _) (Tells.heeds ?_)
  refine reported_tells (fun _ => rfl) (fun r e => ⟨(none, some e), rfl, rfl⟩)
    fun (r : Handed Bytes) last hlends => ?_
  have hgiven : r.out = last.given := hlends
  dsimp only
  rw [hgiven]
  split_ifs with hempty
  · exact settles_pure (copied_ok (copyable_of_lt (by omega)))
  · exact settles_copy last

theorem borrowValue_heeds {ρ : Type}
    (fn : Option Bytes → ρ → Except Crash (Option GoError) × ρ) (s : ρ)
    (hfn : ∀ given, fine given (fn (if given.length = 0 then none else some given) s).1) :
    Heeds (·.1) fine (it.borrowValue fn s) := by
  have hrun (value : Option Bytes) {last : Last} (hfine : fine last.given (fn value s).1) :
      Settles (α := Option GoError × ρ) (·.1) fine last
        (Code.ofExcept ((fn value s).1.map fun e => (e, (fn value s).2))) := by
    refine settles_ofExcept ?_
    cases hresult : (fn value s).1 with
    | error crash => rwa [hresult] at hfine
    | ok e => rwa [hresult] at hfine
  refine heeds_if (keeps_ofExcept _) (Tells.heeds ?_)
  refine reported_tells (fun _ => rfl) (fun r e => ⟨(some e, s), rfl, rfl⟩)
    fun (r : Handed Bytes) last hlends => ?_
  have hgiven : r.out = last.given := hlends
  have hfine := hfn last.given
  dsimp only
  rw [hgiven]
  split_ifs at hfine ⊢
  · exact hrun none hfine
  · exact hrun _ hfine

theorem AppendValue_heeds (dst : Bytes) : Heeds (·.2) NoError (it.AppendValue dst) := by
  have hborrowed : Heeds (·.1) NoError
      (it.borrowValue (fun value dst => (.ok none, dst ++ value.getD [])) dst) :=
    it.borrowValue_heeds _ dst fun _ => rfl
  refine hborrowed.map fun (e, dst) => ?_
  cases e with
  | some e => exact ⟨([], some e), rfl, rfl⟩
  | none => exact ⟨(dst, none), rfl, rfl⟩

theorem Close_heeds : Heeds (·.1) NoError it.Close := by
  refine heeds_if (keeps_pure _) (Tells.heeds ?_)
  refine reported_tells (fun _ => rfl) (fun r e => ⟨(some e, _), rfl, rfl⟩) fun r _ _ => ?_
  exact settles_pure rfl

end Iter

-- What comes of a status that is OK, by the bytes lent.
def Method.Exact (m : Method) (given : Bytes) (result : Except Crash (Option GoError)) : Prop :=
  (m.Fine given result ↔ m.Fits given) ∧ (given.length < 2 ^ 31 → m.Fits given)

theorem Heeds.exact {m : Method} {p : Code (Option GoError)} (h : Heeds id m.Fine p)
    (hfits : ∀ given, m.Fits given) : Heeds id m.Exact p :=
  h.mono fun given _ hresult => ⟨iff_of_true hresult (hfits given), fun _ => hfits given⟩

theorem Method.heeds (m : Method) : Heeds id m.Exact m.body := by
  have hfits (given : Bytes) : True := trivial
  cases m with
  | OpenWith path opts =>
    exact Heeds.exact ((OpenWith_heeds path opts).map fun a => ⟨a.2, rfl, rfl⟩) hfits
  | DB db m =>
    cases m with
    | Get key => exact (db.Get_heeds key).map fun a => ⟨a.2, rfl, rfl⟩
    | Has key => exact Heeds.exact ((db.Has_heeds key).map fun a => ⟨a.2, rfl, rfl⟩) hfits
    | Set key value => exact Heeds.exact (db.Set_heeds key value) hfits
    | Delete key => exact Heeds.exact (db.Delete_heeds key) hfits
    | Write b => exact Heeds.exact (db.Write_heeds b) hfits
    | DropAll => exact Heeds.exact db.DropAll_heeds hfits
    | NewIter opts => exact Heeds.exact ((db.NewIter_heeds opts).map fun a => ⟨a.2, rfl, rfl⟩) hfits
    | NewTxn readOnly =>
      exact Heeds.exact ((db.NewTxn_heeds readOnly).map fun a => ⟨a.2, rfl, rfl⟩) hfits
    | Close => exact Heeds.exact (db.Close_heeds.map fun a => ⟨a.1, rfl, rfl⟩) hfits
  | Txn t m =>
    cases m with
    | Get key => exact (t.Get_heeds key).map fun a => ⟨a.2, rfl, rfl⟩
    | Has key => exact Heeds.exact ((t.Has_heeds key).map fun a => ⟨a.2, rfl, rfl⟩) hfits
    | Set key value => exact Heeds.exact (t.Set_heeds key value) hfits
    | Delete key => exact Heeds.exact (t.Delete_heeds key) hfits
    | NewIter opts => exact Heeds.exact ((t.NewIter_heeds opts).map fun a => ⟨a.2, rfl, rfl⟩) hfits
    | Commit => exact Heeds.exact (t.Commit_heeds.map fun a => ⟨a.1, rfl, rfl⟩) hfits
    | Discard => exact heeds_of_passive (t.Discard_passive.bind fun _ => keeps_pure _)
  | Iter it m =>
    cases m with
    | Next => exact it.Next_heeds.map fun a => ⟨a.1.2, rfl, rfl⟩
    | Seek key => exact (it.Seek_heeds key).map fun a => ⟨a.1.2, rfl, rfl⟩
    | Reset => exact heeds_of_passive (it.Reset_passive.bind fun _ => keeps_pure _)
    | Key => exact heeds_of_passive (it.Key_passive.bind fun _ => keeps_pure _)
    | Value => exact it.Value_heeds.map fun a => ⟨a.2, rfl, rfl⟩
    | BorrowValue fn =>
      have hborrowed : Heeds (·.1) (Method.Iter it (.BorrowValue fn)).Fine
          (it.borrowValue (fun value s => (fn value, s)) ()) :=
        it.borrowValue_heeds _ () fun _ => rfl
      exact Heeds.exact (hborrowed.map fun a => ⟨a.1, rfl, rfl⟩) hfits
    | AppendValue dst =>
      exact Heeds.exact ((it.AppendValue_heeds dst).map fun a => ⟨a.2, rfl, rfl⟩) hfits
    | Close => exact Heeds.exact (it.Close_heeds.map fun a => ⟨a.1, rfl, rfl⟩) hfits

end Methods

-- What the boundary reports of any call, and what any method makes of the last such report:
-- what the status says, unless the bytes that came with it do not fit.
theorem status_and_detail (c : Abi.Call) (m : Method) :
    (∀ {τ : List (Exchange Abi.interface)} {outcome : Except Raised Unit},
      Yields c.body τ outcome →
        ∀ err, Abi.Promised c.shape outcome (Abi.written τ) err) ∧
    ∀ {τ : List (Exchange signature.interface)} {result : Except Crash (Option GoError)}
      {last : Last}, Yields m.body τ result → Follows Serves none τ (some last) →
        (Answers m.Fine result last ↔ (last.status = OK → m.Fits last.given)) ∧
          (last.status = OK → last.given.length < 2 ^ 31 → m.Fits last.given) := by
  refine ⟨fun run => c.promised run, fun {τ result last} run hserves => ?_⟩
  have hheeds : wp serving m.body (fun result g => ∀ l ∈ g, Answers m.Exact result l) none := by
    refine m.heeds fun result g hg => ?_
    simpa using hg
  have hanswers := run.followed hserves hheeds last rfl
  unfold Answers at hanswers ⊢
  split_ifs at hanswers ⊢ with hstatus
  · exact ⟨by simpa [hstatus] using hanswers.1, fun _ => hanswers.2⟩
  · exact ⟨iff_of_true hanswers fun h => absurd h hstatus, fun h => absurd h hstatus⟩

section Lookups

def found : Found where
  inner := .new () false
  it := ⟨.from_source (.Snapshot ()) (bounds_from none), .opened _ _⟩
  opts := ⟨bytePtr [], bytePtr [], bytePtr [], 0, 0⟩

-- A lookup of a value that a transaction holds.
theorem get_borrowed_finds {value : Bytes} (hvalue : value ≠ []) :
    Report (.regolith_txn_get_borrowed (some 0) (bytePtr [1])) OK none
      [.ptr (some value), .len value.length, .value_handle (some value)] := by
  cases value with
  | nil => exact absurd rfl hvalue
  | cons b tail =>
    let entry : Abi.Call :=
      .txn (some found.inner) (.get_borrowed (bytePtr [1]) .writable .writable .writable)
    have run : Yields entry.body
        [⟨.engine (.txn_get_slice [1]), .ok (.ok (some (b :: tail)))⟩, ⟨.engine .view, .ok ()⟩,
          ⟨.write (.ptr (some (b :: tail))), ()⟩, ⟨.write (.len (b :: tail).length), ()⟩,
          ⟨.write (.value_handle (some (b :: tail))), ()⟩] (.ok ()) :=
      .call _ (.call _ (.call _ (.call _ (.call _ .ret))))
    exact .returned found rfl run

end Lookups

-- A lookup in which the engine panics with a nul in its message, and one that finds a value.
theorem status_and_detail_panic :
    Abi.Promised .flag (.error (.panic (.text "over\x00flow"))) [] .writable ∧
      Answers NoError (.ok (some ⟨.ErrPanic, "overflow"⟩))
        ⟨PANIC, some 8, some "overflow", none, []⟩ ∧
      Answers NoError (.ok none) ⟨OK, none, none, some 7, [5, 6]⟩ := by
  let entry : Abi.Call := .db (some ()) (.has (bytePtr [1]) .writable)
  have run : Yields entry.body [⟨.engine (.has [1]), .error (.text "over\x00flow")⟩]
      (.error (.panic (.text "over\x00flow"))) := .call _ .ret
  have hmessage : (guard .writable (.error (.panic (.text "over\x00flow")) :
      Except Raised Unit)).err = some "overflow" := by decide
  let m : Method := .DB ⟨some 0, false⟩ (.Has [1])
  refine ⟨(status_and_detail entry m).1 run .writable, ?_, ?_⟩
  · let r : Handed UInt8 := ⟨PANIC, some 8, 0⟩
    have hm : Yields m.body
        [⟨.call (.regolith_db_has (some 0) (bytePtr [1])), r⟩,
          ⟨.read (.detail 8), "overflow"⟩, ⟨.release (.detail 8), ()⟩]
        (.ok (some ⟨.ErrPanic, "overflow"⟩)) := .call _ (.call _ (.call _ .ret))
    have hreport : Report (.regolith_db_has (some 0) (bytePtr [1])) PANIC (some "overflow") [] :=
      hmessage ▸ .returned found rfl run
    refine ((status_and_detail entry m).2 hm (.cons ⟨_, _, hreport, by decide, fun _ => rfl, rfl⟩
      (.cons ⟨rfl, ?_⟩ (.cons rfl .nil)))).1.mpr nofun
    rintro _ ⟨rfl⟩ _
    rfl
  · let m : Method := .Txn ⟨some 0, false, false⟩ (.Get [1])
    let r : Handed ValueOut := ⟨OK, none, some 7, 2, some 7⟩
    have hm : Yields m.body
        [⟨.call (.regolith_txn_get_borrowed (some 0) (bytePtr [1])), r⟩,
          ⟨.read (.value 7), ([5, 6] : Bytes)⟩, ⟨.release (.value 7), ()⟩] (.ok none) :=
      .call _ (.call _ (.call _ .ret))
    have hreport := get_borrowed_finds (show ([5, 6] : Bytes) ≠ [] by decide)
    have hserves := (status_and_detail entry m).2 hm (.cons
      ⟨_, _, hreport, by decide, fun _ => ⟨rfl, by decide, fun _ => rfl⟩, rfl⟩
      (.cons ⟨rfl, ?_⟩ (.cons rfl .nil)))
    · exact hserves.1.mpr (hserves.2 · (by decide))
    · rintro _ ⟨rfl⟩ _
      rfl

-- A transaction holds a value of 2 GiB: the lookup is told OK, and crashes.
theorem long_lookup_crash : ∃ (τ : List (Exchange signature.interface)) (last : Last),
    Yields (Method.Txn ⟨some 0, false, false⟩ (.Get [1])).body τ
        (.error (.panic "gobytes: length out of range")) ∧
      Follows Serves none τ (some last) ∧ last.status = OK ∧ last.given.length = 2 ^ 31 ∧
      ¬Answers (Method.Txn ⟨some 0, false, false⟩ (.Get [1])).Fine
        (.error (.panic "gobytes: length out of range")) last := by
  obtain ⟨value, hvalue⟩ : ∃ value : Bytes, value.length = 2 ^ 31 :=
    ⟨List.replicate (2 ^ 31) 0, List.length_replicate⟩
  have hne : value ≠ [] := by
    rintro rfl
    simp at hvalue
  have hreport := get_borrowed_finds hne
  let r : Handed ValueOut := ⟨OK, none, some 7, 2147483648, some 7⟩
  refine ⟨[⟨.call (.regolith_txn_get_borrowed (some 0) (bytePtr [1])), r⟩,
    ⟨.release (.value 7), ()⟩], ⟨OK, none, none, some 7, value⟩, ?_, ?_, rfl, hvalue, ?_⟩
  · exact .call _ (.call _ .ret)
  · refine .cons ⟨_, _, hreport, by decide, fun _ => ⟨?_, iff_of_true rfl rfl, fun _ => rfl⟩, rfl⟩
      (.cons rfl .nil)
    exact hvalue.symm
  · rw [Answers, if_pos rfl]
    exact nofun

end Regolith.Go.Lent
