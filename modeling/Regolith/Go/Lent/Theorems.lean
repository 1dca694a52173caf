import Regolith.Go.Lent

-- Everything handed over during a method is released before the method returns.
namespace Regolith.Go.Lent

open Ffi Lending Program

section Rules

variable {α β : Type} {base held : Finset Obj} {status : Status} {cerr ptr : Ptr} {length : Nat}

theorem erase_new {o : Obj} (ho : o ∉ base) : (base ∪ {o}).erase o = base := by
  rw [Finset.union_singleton, Finset.erase_insert ho]

theorem call_owns {c : FfiCall} {Q : Except Crash c.Reply → Finset Obj → Prop}
    (huses : contract.uses c ⊆ held)
    (hnext : ∀ r, c.form.allows r → Disjoint (c.form.gives r) held →
      Q (.ok r) (held ∪ c.form.gives r)) :
    wp contract.owning (call c) Q held := ⟨huses, hnext⟩

theorem statusToErr_owns {Q : Except Crash (Option GoError) → Finset Obj → Prop}
    (hnew : Disjoint (cerr.objects .detail) base)
    (hQ : ∀ message, Q (.ok (Go.statusToErr status message)) base) :
    wp contract.owning (statusToErr status cerr) Q (base ∪ cerr.objects .detail) := by
  unfold statusToErr
  rw [wp_code_bind]
  cases cerr with
  | none =>
    have hbase : base ∪ Ptr.objects none .detail = base := Finset.union_empty base
    rw [hbase]
    exact hQ none
  | some id =>
    refine ⟨by simp [Ptr.objects], fun message => ⟨by simp [Ptr.objects], ?_⟩⟩
    have hbase : (base ∪ Ptr.objects (some id) .detail).erase (.detail id) = base :=
      erase_new (by simpa [Ptr.objects] using hnew)
    rw [hbase]
    exact hQ (some message)

theorem GoBytes_owns {memory : Option (Code Bytes)} {n : Int32}
    {Q : Except Crash Bytes → Finset Obj → Prop}
    (hmemory : ∀ m ∈ memory, ∀ {Q : Except Crash Bytes → Finset Obj → Prop},
      (∀ bytes, Q (.ok bytes) base) → wp contract.owning m Q base)
    (hQ : ∀ result, Q result base) : wp contract.owning (GoBytes memory n) Q base := by
  unfold GoBytes
  split_ifs
  · exact hQ _
  · cases memory with
    | none => exact hQ _
    | some m =>
      rw [wp_code_bind]
      exact hmemory m rfl fun bytes => hQ _

-- A deferred release, of an object that the body may read.
theorem defer_owns {o : Obj} {body : Code α} {Q : Except Crash α → Finset Obj → Prop}
    (hnew : o ∉ base)
    (hbody : ∀ {Q : Except Crash α → Finset Obj → Prop},
      (∀ result, Q result (base ∪ {o})) → wp contract.owning body Q (base ∪ {o}))
    (hQ : ∀ result, Q result base) :
    wp contract.owning (Code.defer (.call (.release o) .ret) body) Q (base ∪ {o}) := by
  rw [wp_defer]
  refine hbody fun result => ⟨by simp, ?_⟩
  rw [erase_new hnew]
  exact hQ result

-- A copy out of an object that is held.
theorem copy_owns {o : Obj} {memory : Code Bytes} {n : Int32} {f : Bytes → α}
    {Q : Except Crash α → Finset Obj → Prop}
    (hmemory : ∀ {Q : Except Crash Bytes → Finset Obj → Prop},
      wp contract.owning memory Q base = (o ∈ base ∧ ∀ bytes, Q (.ok bytes) base))
    (ho : o ∈ base) (hQ : ∀ result, Q result base) :
    wp contract.owning (GoBytes (some memory) n >>= fun bytes => pure (f bytes) : Code α) Q
      base := by
  rw [wp_code_bind]
  refine GoBytes_owns ?_ fun result => ?_
  · rintro m ⟨rfl⟩ Q hQ
    rw [hmemory]
    exact ⟨ho, hQ⟩
  · cases result with
    | ok bytes => exact hQ _
    | error crash => exact hQ _

-- A program that leaves what is held as it was.
abbrev Neutral (p : Code α) : Prop := Keeps contract.owning p

theorem Neutral.tidy {p : Code α} (h : Neutral p) : Tidy contract p := h fun _ => rfl

-- A call that hands over no more than a detail, and `statusToErr` right after it.
theorem reported_owns {c : FfiCall} {status : c.Reply → Status} {cerr : c.Reply → Ptr}
    {next : c.Reply → Option GoError → Code β} {Q : Except Crash β → Finset Obj → Prop}
    (huses : contract.uses c ⊆ base)
    (hgives : ∀ r, c.form.gives r = (cerr r).objects .detail)
    (hnext : ∀ r err, Neutral (next r err)) (hQ : ∀ result, Q result base) :
    wp contract.owning
      (call c >>= fun r => statusToErr (status r) (cerr r) >>= next r : Code β) Q base := by
  rw [wp_code_bind]
  refine call_owns huses fun r _ hnew => ?_
  simp only [hgives] at hnew ⊢
  rw [wp_code_bind]
  exact statusToErr_owns hnew fun message => hnext r _ hQ

theorem reported_neutral {c : FfiCall} {status : c.Reply → Status} {cerr : c.Reply → Ptr}
    {next : c.Reply → Option GoError → Code β} (huses : contract.uses c = ∅)
    (hgives : ∀ r, c.form.gives r = (cerr r).objects .detail)
    (hnext : ∀ r err, Neutral (next r err)) :
    Neutral (call c >>= fun r => statusToErr (status r) (cerr r) >>= next r) :=
  fun _ _ hQ => reported_owns (by simp [huses]) hgives hnext hQ

theorem report_neutral {c : FfiCall} {status : c.Reply → Status} {cerr : c.Reply → Ptr}
    (huses : contract.uses c = ∅) (hgives : ∀ r, c.form.gives r = (cerr r).objects .detail) :
    Neutral (call c >>= fun r => statusToErr (status r) (cerr r)) := by
  intro Q base hQ
  rw [wp_code_bind]
  refine call_owns (by simp [huses]) fun r _ hnew => ?_
  simp only [hgives] at hnew ⊢
  exact statusToErr_owns hnew fun message => hQ _

theorem silent_neutral {c : FfiCall} {next : c.Reply → Code β} (huses : contract.uses c = ∅)
    (hgives : ∀ r, c.form.gives r = ∅) (hnext : ∀ r, Neutral (next r)) :
    Neutral (call c >>= next) := by
  intro Q base hQ
  rw [wp_code_bind]
  refine call_owns (by simp [huses]) fun r _ _ => ?_
  rw [hgives, Finset.union_empty]
  exact hnext r hQ

-- What `takeBuf` is passed.
theorem takeBuf_owns {Q : Except Crash (Bytes × Option GoError) → Finset Obj → Prop}
    (hframe : ptr.isSome ↔ status = OK ∧ length ≠ 0)
    (hnew : Disjoint (ptr.objects (.frame · length) ∪ cerr.objects .detail) base)
    (hQ : ∀ result, Q result base) :
    wp contract.owning (takeBuf ptr length status cerr) Q
      (base ∪ (ptr.objects (.frame · length) ∪ cerr.objects .detail)) := by
  obtain ⟨hnewFrame, hnewDetail⟩ := Finset.disjoint_union_left.mp hnew
  unfold takeBuf
  rw [wp_code_bind, ← Finset.union_assoc]
  refine statusToErr_owns ?_ fun message => ?_
  · refine Finset.disjoint_union_right.mpr ⟨hnewDetail, ?_⟩
    cases ptr <;> cases cerr <;> simp [Ptr.objects]
  · cases ptr with
    | none =>
      have hbase : base ∪ Ptr.objects none (.frame · length) = base := Finset.union_empty base
      have hempty : status = OK → length = 0 := by simpa using hframe
      rw [hbase]
      cases herr : Go.statusToErr status message with
      | some err => exact hQ _
      | none =>
        have hlength := hempty ((statusToErr_eq_none_iff status message).mp herr)
        simpa [hlength] using hQ _
    | some id =>
      obtain ⟨rfl, hlength⟩ := hframe.mp rfl
      simp only [statusToErr_ok, hlength, if_false]
      refine defer_owns (by simpa [Ptr.objects] using hnewFrame) (fun hQ => ?_) hQ
      exact copy_owns (o := .frame id length) rfl (by simp) hQ

-- What `copyBorrowed` is passed.
theorem copyBorrowed_owns {handle : Ptr}
    {Q : Except Crash (Option Bytes × Option GoError) → Finset Obj → Prop}
    (hvalue : handle.isSome ↔ status = OK ∧ length ≠ 0) (hptr : handle.isSome → ptr = handle)
    (hnew : Disjoint (handle.objects .value ∪ cerr.objects .detail) base)
    (hQ : ∀ result, Q result base) :
    wp contract.owning (copyBorrowed ptr length handle status cerr) Q
      (base ∪ (handle.objects .value ∪ cerr.objects .detail)) := by
  obtain ⟨hnewValue, hnewDetail⟩ := Finset.disjoint_union_left.mp hnew
  have hdisjoint : Disjoint (cerr.objects .detail) (base ∪ handle.objects .value) := by
    refine Finset.disjoint_union_right.mpr ⟨hnewDetail, ?_⟩
    cases handle <;> cases cerr <;> simp [Ptr.objects]
  rw [← Finset.union_assoc]
  cases handle with
  | none =>
    have hbase : base ∪ Ptr.objects none .value = base := Finset.union_empty base
    have hempty : status = OK → length = 0 := by simpa using hvalue
    rw [hbase] at hdisjoint ⊢
    unfold copyBorrowed copyValue
    rw [wp_code_bind]
    refine statusToErr_owns hdisjoint fun message => ?_
    cases herr : Go.statusToErr status message with
    | some err => exact hQ _
    | none =>
      have hlength := hempty ((statusToErr_eq_none_iff status message).mp herr)
      simpa [hlength] using hQ _
  | some id =>
    obtain ⟨rfl, hlength⟩ := hvalue.mp rfl
    obtain rfl := hptr rfl
    unfold copyBorrowed copyValue
    rw [wp_defer, wp_code_bind]
    refine statusToErr_owns hdisjoint fun message => ?_
    simp only [statusToErr_ok, hlength, if_false]
    refine copy_owns (o := .value id) rfl (by simp [Ptr.objects]) fun result => ?_
    refine ⟨by simp [Ptr.objects], ?_⟩
    rw [Ptr.objects, erase_new (by simpa [Ptr.objects] using hnewValue)]
    exact hQ result

end Rules

-- The options of an iterator in C memory, and what frees them.
namespace iterOptions

variable {α : Type} {base held : Finset Obj}

def owned (o : iterOptions) : Finset Obj := {.opts o.opts} ∪ (o.bufs.map .buf).toFinset

-- All that the options are made of is held above `base`, each buffer once.
structure Owned (o : iterOptions) (base held : Finset Obj) : Prop where
  held : held = base ∪ o.owned
  apart : Disjoint o.owned base
  once : o.bufs.Nodup
  prefix_ : o.prefix_.1.objects .buf ⊆ o.owned
  start : o.start.1.objects .buf ⊆ o.owned
  end_ : o.end_.1.objects .buf ⊆ o.owned

theorem Owned.uses {o : iterOptions} (h : o.Owned base held) : o.objects ⊆ held := by
  have hopts : {Obj.opts o.opts} ⊆ o.owned := Finset.subset_union_left
  refine (Finset.union_subset ?_ h.end_).trans (h.held ▸ Finset.subset_union_right)
  exact Finset.union_subset (Finset.union_subset hopts h.prefix_) h.start

theorem freeBufs_owns {next : Prog signature.interface Unit} {Q : Unit → Finset Obj → Prop}
    (hnext : wp contract.owning next Q base) {ptrs : List Nat} (honce : ptrs.Nodup)
    (hnew : ∀ ptr ∈ ptrs, .buf ptr ∉ base) :
    wp contract.owning (freeBufs ptrs next) Q (base ∪ (ptrs.map .buf).toFinset) := by
  induction ptrs with
  | nil => simpa [freeBufs] using hnext
  | cons ptr ptrs ih =>
    obtain ⟨hptr, honce⟩ := List.nodup_cons.mp honce
    have hbase : (base ∪ (List.map Obj.buf (ptr :: ptrs)).toFinset).erase (.buf ptr) =
        base ∪ (ptrs.map .buf).toFinset := by
      ext o
      have h₁ : Obj.buf ptr ∉ base := hnew ptr (by simp)
      by_cases ho : o = .buf ptr <;> simp_all
    refine ⟨by simp, ?_⟩
    rw [hbase]
    exact ih honce fun p hp => hnew p (List.mem_cons_of_mem _ hp)

theorem free_owns {o : iterOptions} (h : o.Owned base held) {Q : Unit → Finset Obj → Prop}
    (hQ : Q () base) : wp contract.owning o.free Q held := by
  have hopts : Obj.opts o.opts ∉ base :=
    Finset.disjoint_left.mp h.apart (by simp [owned])
  rw [h.held, owned, ← Finset.union_assoc]
  refine freeBufs_owns ?_ h.once ?_
  · refine ⟨by simp, ?_⟩
    rw [erase_new hopts]
    exact hQ
  · intro ptr hptr
    have hbuf : Obj.buf ptr ∉ base := Finset.disjoint_left.mp h.apart (by simp [owned, hptr])
    simp [hbuf]

-- One more buffer, which is not held yet.
theorem Owned.push {o : iterOptions} (h : o.Owned base held) {ptr : Nat}
    (hnew : Obj.buf ptr ∉ held) :
    { o with bufs := o.bufs ++ [ptr] }.Owned base (held ∪ {Obj.buf ptr}) := by
  have howned : { o with bufs := o.bufs ++ [ptr] }.owned = o.owned ∪ {Obj.buf ptr} := by
    simp [owned, Finset.insert_comm]
  rw [h.held, Finset.mem_union, not_or] at hnew
  obtain ⟨hbase, hself⟩ := hnew
  have hmore : o.owned ⊆ { o with bufs := o.bufs ++ [ptr] }.owned :=
    howned ▸ Finset.subset_union_left
  refine ⟨?_, ?_, ?_, h.prefix_.trans hmore, h.start.trans hmore, h.end_.trans hmore⟩
  · rw [howned, h.held, Finset.union_assoc]
  · rw [howned, Finset.disjoint_union_left]
    exact ⟨h.apart, Finset.disjoint_singleton_left.mpr hbase⟩
  · have hbufs : ptr ∉ o.bufs := by
      intro hptr
      exact hself (by simp [owned, hptr])
    simpa [List.nodup_append, h.once] using fun a ha => ne_of_mem_of_not_mem ha hbufs

-- A range that `dup` hands back is owned by the options it hands back.
theorem dup_owns {o : iterOptions} {b : Bytes} (h : o.Owned base held)
    {Q : Except Crash ((Ptr × Nat) × iterOptions) → Finset Obj → Prop}
    (hQ : ∀ range o held, o.Owned base held → range.1.objects .buf ⊆ o.owned →
      Q (.ok (range, o)) held) :
    wp contract.owning (o.dup b) Q held := by
  unfold dup
  split_ifs
  · exact hQ (none, 0) o held h (by simp [Ptr.objects])
  · rw [wp_code_bind]
    refine call_owns (by simp [contract]) fun (ptr : Nat) _ hnew => ?_
    refine hQ (some ptr, b.length) _ _ (h.push ?_) ?_
    · exact Finset.disjoint_singleton_left.mp hnew
    · simp [Ptr.objects, owned]

theorem newIterOptions_owns {opts : IterOptions}
    {Q : Except Crash iterOptions → Finset Obj → Prop}
    (hQ : ∀ o held, o.Owned base held → Q (.ok o) held) :
    wp contract.owning (newIterOptions opts) Q base := by
  unfold newIterOptions
  rw [wp_code_bind]
  refine call_owns (by simp [contract]) fun (ptr : Nat) _ hnew => ?_
  have hptr : Obj.opts ptr ∉ base := Finset.disjoint_singleton_left.mp hnew
  have hfirst : (⟨ptr, (none, 0), (none, 0), (none, 0), 0, 0, []⟩ : iterOptions).Owned base
      (base ∪ {.opts ptr}) := by
    constructor <;> simp [owned, Ptr.objects, hptr]
  simp only [wp_code_bind]
  refine dup_owns hfirst fun prefix_ o held h hprefix => ?_
  replace h : { o with prefix_ := prefix_ }.Owned base held := { h with prefix_ := hprefix }
  refine dup_owns h fun start o held h hstart => ?_
  replace h : { o with start := start }.Owned base held := { h with start := hstart }
  refine dup_owns h fun end_ o held h hend => hQ _ held ?_
  exact { h with end_ := hend }

end iterOptions

section Methods

variable {α : Type}

theorem openIter_neutral {opts : IterOptions} {cross : iterOptions → Code (Handed Ptr)}
    (hcross : ∀ o {base : Finset Obj} {Q : Except Crash (Handed Ptr) → Finset Obj → Prop},
      o.objects ⊆ base →
      (∀ r : Handed Ptr, Disjoint (r.cerr.objects .detail) base →
        Q (.ok r) (base ∪ r.cerr.objects .detail)) →
      wp contract.owning (cross o) Q base) :
    Neutral (openIter opts cross) := by
  intro Q base hQ
  unfold openIter
  rw [wp_code_bind]
  refine iterOptions.newIterOptions_owns fun o held h => ?_
  simp only [wp_defer, wp_code_bind]
  have hfreed (result) : wp contract.owning o.free (fun _ => Q result) held :=
    iterOptions.free_owns h (hQ result)
  refine hcross o h.uses fun r hnew => statusToErr_owns hnew fun message => ?_
  cases Go.statusToErr r.status message <;> exact hfreed _

theorem OpenWith_neutral (path : Bytes) (opts : Options) : Neutral (OpenWith path opts) := by
  unfold OpenWith
  split
  · exact keeps_pure _
  · refine reported_neutral rfl (fun r => Finset.empty_union _) fun r err => ?_
    split <;> exact keeps_pure _

-- A method that goes on only where its object is in use.
theorem neutral_begin {t : Txn} {refused : GoError → Code α} {next : Code α}
    (hrefused : ∀ err, Neutral (refused err)) (hnext : Neutral next) :
    Neutral (match t.begin with
      | some err => refused err
      | none => next) := by
  cases t.begin with
  | some err => exact hrefused err
  | none => exact hnext

namespace DB

variable (db : DB)

theorem Get_neutral (key : Bytes) : Neutral (db.Get key) := by
  refine keeps_if (keeps_pure _) fun Q base hQ => ?_
  rw [wp_code_bind]
  refine call_owns (by simp [contract]) fun (r : Handed ValueOut) hallows hnew => ?_
  exact copyBorrowed_owns hallows.2.1 hallows.2.2 hnew hQ

theorem Has_neutral (key : Bytes) : Neutral (db.Has key) := by
  refine keeps_if (keeps_pure _) ?_
  refine reported_neutral rfl (fun r => Finset.empty_union _) fun r err => ?_
  split <;> exact keeps_pure _

theorem Set_neutral (key value : Bytes) : Neutral (db.Set key value) :=
  keeps_if (keeps_pure _) (report_neutral rfl fun _ => Finset.empty_union _)

theorem Delete_neutral (key : Bytes) : Neutral (db.Delete key) :=
  keeps_if (keeps_pure _) (report_neutral rfl fun _ => Finset.empty_union _)

theorem Write_neutral (b : Option WriteBatch) : Neutral (db.Write b) := by
  refine keeps_if (keeps_pure _) ?_
  cases b with
  | none => exact keeps_pure _
  | some batch =>
    exact keeps_if (keeps_pure _) (report_neutral rfl fun _ => Finset.empty_union _)

theorem DropAll_neutral : Neutral db.DropAll :=
  keeps_if (keeps_pure _) (report_neutral rfl fun _ => Finset.empty_union _)

theorem Close_neutral : Neutral db.Close := by
  refine keeps_if (keeps_pure _) ?_
  exact reported_neutral rfl (fun _ => Finset.empty_union _) fun _ _ => keeps_pure _

theorem NewIter_neutral (opts : IterOptions) : Neutral (db.NewIter opts) := by
  refine keeps_if (keeps_pure _) (openIter_neutral fun o base Q huses hQ => ?_)
  refine call_owns huses fun (r : Handed Ptr) _ hnew => ?_
  have hgives : (FfiCall.regolith_db_iter db.db o).form.gives r = r.cerr.objects .detail :=
    Finset.empty_union _
  rw [hgives] at hnew ⊢
  exact hQ r hnew

theorem NewTxn_neutral (readOnly : Bool) : Neutral (db.NewTxn readOnly) := by
  refine keeps_if (keeps_pure _) ?_
  refine reported_neutral rfl (fun r => Finset.empty_union _) fun r err => ?_
  split <;> exact keeps_pure _

end DB

namespace Txn

variable (t : Txn)

theorem Get_neutral (key : Bytes) : Neutral (t.Get key) := by
  refine neutral_begin (fun _ => keeps_pure _) fun Q base hQ => ?_
  rw [wp_code_bind]
  refine call_owns (by simp [contract]) fun (r : Handed ValueOut) hallows hnew => ?_
  exact copyBorrowed_owns hallows.2.1 hallows.2.2 hnew hQ

theorem Has_neutral (key : Bytes) : Neutral (t.Has key) := by
  refine neutral_begin (fun _ => keeps_pure _) ?_
  refine reported_neutral rfl (fun r => Finset.empty_union _) fun r err => ?_
  split <;> exact keeps_pure _

theorem Set_neutral (key value : Bytes) : Neutral (t.Set key value) :=
  neutral_begin (fun _ => keeps_pure _) (report_neutral rfl fun _ => Finset.empty_union _)

theorem Delete_neutral (key : Bytes) : Neutral (t.Delete key) :=
  neutral_begin (fun _ => keeps_pure _) (report_neutral rfl fun _ => Finset.empty_union _)

theorem NewIter_neutral (opts : IterOptions) : Neutral (t.NewIter opts) := by
  refine neutral_begin (fun _ => keeps_pure _) (openIter_neutral fun o base Q huses hQ => ?_)
  refine call_owns huses fun (r : Handed Ptr) _ hnew => ?_
  have hgives : (FfiCall.regolith_txn_iter t.t o).form.gives r = r.cerr.objects .detail :=
    Finset.empty_union _
  rw [hgives] at hnew ⊢
  exact hQ r hnew

theorem Commit_neutral : Neutral t.Commit := by
  refine keeps_if (keeps_pure _) (keeps_if (keeps_pure _) ?_)
  exact reported_neutral rfl (fun _ => Finset.empty_union _) fun _ _ => keeps_pure _

theorem Discard_neutral : Neutral t.Discard :=
  keeps_if (keeps_pure _) (silent_neutral rfl (fun _ => rfl) fun _ => keeps_pure _)

end Txn

namespace Iter

variable (it : Iter)

theorem refill_neutral : Neutral it.refill := by
  intro Q base hQ
  unfold refill
  rw [wp_code_bind]
  refine call_owns (by simp [contract]) fun (r : Handed BatchOut) hallows hnew => ?_
  simp only [wp_code_bind]
  refine takeBuf_owns hallows.2 hnew fun result => ?_
  rcases result with crash | ⟨frame, _ | err⟩
  · exact hQ _
  · exact keeps_if (keeps_pure _) ((keeps_ofExcept _).bind fun _ => keeps_pure _) hQ
  · exact hQ _

theorem Next_neutral : Neutral it.Next := by
  refine keeps_if (keeps_pure _) (keeps_if (keeps_pure _) (keeps_if (keeps_pure _) ?_))
  exact it.refill_neutral

theorem Seek_neutral (key : Bytes) : Neutral (it.Seek key) := by
  refine keeps_if (keeps_pure _) ?_
  refine reported_neutral rfl (fun _ => Finset.empty_union _) fun r err => ?_
  split
  · exact keeps_pure _
  · exact keeps_if (keeps_pure _) (refill_neutral _)

theorem Reset_neutral : Neutral it.Reset :=
  silent_neutral rfl (fun _ => rfl) fun _ => keeps_pure _

theorem Key_neutral : Neutral it.Key := by
  unfold Key
  split
  · exact keeps_pure _
  · exact keeps_ofExcept _

theorem Value_neutral : Neutral it.Value := by
  refine keeps_if (keeps_pure _) ?_
  refine reported_neutral rfl (fun _ => Finset.empty_union _) fun r err => ?_
  split
  · exact keeps_pure _
  · exact keeps_if (keeps_pure _) ((keeps_ofExcept _).bind fun _ => keeps_pure _)

theorem borrowValue_neutral {ρ : Type} (fn : Option Bytes → ρ → Except Crash (Option GoError) × ρ)
    (s : ρ) : Neutral (it.borrowValue fn s) := by
  refine keeps_if (keeps_ofExcept _) ?_
  refine reported_neutral rfl (fun _ => Finset.empty_union _) fun r err => ?_
  split
  · exact keeps_pure _
  · exact keeps_if (keeps_ofExcept _) (keeps_ofExcept _)

theorem AppendValue_neutral (dst : Bytes) : Neutral (it.AppendValue dst) := by
  refine (it.borrowValue_neutral _ dst).bind fun result => ?_
  split <;> exact keeps_pure _

theorem Close_neutral : Neutral it.Close := by
  refine keeps_if (keeps_pure _) ?_
  exact reported_neutral rfl (fun _ => Finset.empty_union _) fun _ _ => keeps_pure _

end Iter

theorem Method.neutral (m : Method) : Neutral m.body := by
  cases m with
  | OpenWith path opts => exact (OpenWith_neutral path opts).bind fun _ => keeps_pure _
  | DB db m =>
    cases m with
    | Get key => exact (db.Get_neutral key).bind fun _ => keeps_pure _
    | Has key => exact (db.Has_neutral key).bind fun _ => keeps_pure _
    | Set key value => exact db.Set_neutral key value
    | Delete key => exact db.Delete_neutral key
    | Write b => exact db.Write_neutral b
    | DropAll => exact db.DropAll_neutral
    | NewIter opts => exact (db.NewIter_neutral opts).bind fun _ => keeps_pure _
    | NewTxn readOnly => exact (db.NewTxn_neutral readOnly).bind fun _ => keeps_pure _
    | Close => exact db.Close_neutral.bind fun _ => keeps_pure _
  | Txn t m =>
    cases m with
    | Get key => exact (t.Get_neutral key).bind fun _ => keeps_pure _
    | Has key => exact (t.Has_neutral key).bind fun _ => keeps_pure _
    | Set key value => exact t.Set_neutral key value
    | Delete key => exact t.Delete_neutral key
    | NewIter opts => exact (t.NewIter_neutral opts).bind fun _ => keeps_pure _
    | Commit => exact t.Commit_neutral.bind fun _ => keeps_pure _
    | Discard => exact t.Discard_neutral.bind fun _ => keeps_pure _
  | Iter it m =>
    cases m with
    | Next => exact it.Next_neutral.bind fun _ => keeps_pure _
    | Seek key => exact (it.Seek_neutral key).bind fun _ => keeps_pure _
    | Reset => exact it.Reset_neutral.bind fun _ => keeps_pure _
    | Key => exact it.Key_neutral.bind fun _ => keeps_pure _
    | Value => exact it.Value_neutral.bind fun _ => keeps_pure _
    | BorrowValue fn => exact (it.borrowValue_neutral _ ()).bind fun _ => keeps_pure _
    | AppendValue dst => exact (it.AppendValue_neutral dst).bind fun _ => keeps_pure _
    | Close => exact it.Close_neutral.bind fun _ => keeps_pure _

end Methods

section Runs

variable {ι : Type} [DecidableEq ι]

abbrev Event (ι : Type) := Lending.Event ι signature Method (Except Crash (Option GoError))

abbrev State (ι : Type) := Lending.State ι signature (Except Crash (Option GoError))

-- Any number of calls of the methods, each from when it begins until it returns.
abbrev Runs (τ : List (Event ι)) (s : State ι) : Prop :=
  Lending.Runs contract (fun m : Method => m.body) τ s

-- What is handed over in a call is released in it, once, and read only before.
theorem lent_settled {τ : List (Event ι)} {s : State ι} (run : Runs τ s) : Settled contract τ s :=
  run.settled fun m => m.neutral.tidy

-- A lookup that finds two bytes, and one that the boundary turns away.
theorem lent_settled_lookups : ∃ s : State (Fin 2),
    Settled contract
      ([.enter 0 (.DB ⟨some 0, false⟩ (.Get [1])), .enter 1 (.DB ⟨some 0, false⟩ (.Has [1])),
        .call 0 (.regolith_db_get_borrowed (some 0) (bytePtr [1]))
          (⟨OK, none, ⟨some 7, 2, some 7⟩⟩ : Handed ValueOut),
        .call 1 (.regolith_db_has (some 0) (bytePtr [1])) (⟨PANIC, some 8, 0⟩ : Handed UInt8),
        .read 0 (.value 7), .read 1 (.detail 8), .release 1 (.detail 8),
        .leave 1 (.ok (some ⟨.ErrPanic, "overflow"⟩)), .release 0 (.value 7),
        .leave 0 (.ok none)] : List (Event (Fin 2))) s := by
  have run : Runs ([] : List (Event (Fin 2))) .first := .nil
  have run := run.snoc (.enter (g := 0) (m := .DB ⟨some 0, false⟩ (.Get [1])) rfl)
  have run := run.snoc (.enter (g := 1) (m := .DB ⟨some 0, false⟩ (.Has [1])) rfl)
  have run := run.snoc (.call (g := 0) (⟨OK, none, ⟨some 7, 2, some 7⟩⟩ : Handed ValueOut) rfl
    (by decide) (by decide))
  have run := run.snoc (.call (g := 1) (⟨PANIC, some 8, 0⟩ : Handed UInt8) rfl
    (by decide) (by decide))
  have run := run.snoc (.read (g := 0) ([5, 6] : Bytes) rfl)
  have run := run.snoc (.read (g := 1) "overflow" rfl)
  have run := run.snoc (.release (g := 1) rfl)
  have run := run.snoc (.leave (g := 1) rfl)
  have run := run.snoc (.release (g := 0) rfl)
  have run := run.snoc (.leave (g := 0) rfl)
  exact ⟨_, lent_settled run⟩

end Runs

end Regolith.Go.Lent
