import Regolith.Ffi.Source.Faults
import Regolith.Go.Iter.Plain

-- A read that fails part way, as the Go iterator reports it.
namespace Regolith.Go

open Ffi Ffi.RegolithIter

section Begins

variable {C T S : Type} [OwnedSnapshotIter C] [TxnScanStream S] [OwnedTransaction T S]

-- An iterator of an open database, whatever it has been used for.
structure Iter.Opened {σ : Type} (opts : IterOptions) (it : Iter σ) : Prop where
  not_closed : it.db_closed = false
  keysOnly : it.keysOnly = opts.KeysOnly
  bounds : it.i.bounds = opts.bounds

-- The calls that begin a walk, over the source as they find it.
inductive Begins (opts : IterOptions) : Start → Source C T S →
    Except Crash (Bool × Option GoError) × Iter (Source C T S) → Prop where
  | snapshot {St : Type} [SnapshotStore St C] (db : DB St) (it : Iter (Source C T S))
      (h : DB.NewIter T S db opts = .ok it) : Begins opts .range it.i.source it.Next
  | transaction (closed resolved : Bool) (txn : TxnInner T) (it : Iter (Source C T S))
      (h : (Txn.NewIter C S closed resolved txn opts).1 = .ok it) :
      Begins opts .range it.i.source it.Next
  | reset (it : Iter (Source C T S)) (h : it.Opened opts) :
      Begins opts .range it.i.source it.Reset.Next
  | seek (it : Iter (Source C T S)) (h : it.Opened opts) (target : Bytes) :
      Begins opts (.target target) it.i.source (it.Seek target)

theorem Iter.Opened.live {σ : Type} {opts : IterOptions} {it : Iter σ} (h : it.Opened opts) :
    it.Live :=
  ⟨h.not_closed, by rw [h.bounds, bounds_keys_only, h.keysOnly]⟩

theorem newIter_ok {σ : Type} {reply : Reply (RegolithIter σ)} {opts : IterOptions} {it : Iter σ}
    (h : newIter reply opts = .ok it) : ∃ i, reply.out = some i ∧ it = .opened i opts := by
  unfold newIter at h
  split at h
  · simp at h
  · simp at h
  · next i _ hout => exact ⟨i, hout, (Except.ok.inj h).symm⟩

omit [OwnedSnapshotIter C] [TxnScanStream S] [OwnedTransaction T S] in
theorem newIter_db {St : Type} [SnapshotStore St C] {db : DB St} {opts : IterOptions}
    {it : Iter (Source C T S)} (h : DB.NewIter T S db opts = .ok it) :
    ∃ source, it = .opened (.from_source source opts.bounds) opts := by
  unfold DB.NewIter at h
  split at h
  · simp at h
  · obtain ⟨i, hout, rfl⟩ := newIter_ok h
    cases hstore : db.db with
    | none => simp [regolith_db_iter, hstore] at hout
    | some store =>
        simp only [regolith_db_iter, hstore, reduceCtorEq, if_false, guard_ok_out,
          Option.some.injEq] at hout
        subst hout
        exact ⟨_, rfl⟩

omit [OwnedSnapshotIter C] [TxnScanStream S] [OwnedTransaction T S] in
theorem newIter_txn {closed resolved : Bool} {txn : TxnInner T} {opts : IterOptions}
    {it : Iter (Source C T S)} (h : (Txn.NewIter C S closed resolved txn opts).1 = .ok it) :
    ∃ source, it = .opened (.from_source source opts.bounds) opts := by
  unfold Txn.NewIter at h
  split at h
  · simp at h
  · split at h
    · simp at h
    · obtain ⟨i, hout, rfl⟩ := newIter_ok h
      simp only [regolith_txn_iter, reduceCtorEq, if_false, RegolithIter.over_txn] at hout
      generalize (txn.with_txn fun t => (Except.ok (), t)) = result at hout
      obtain ⟨raised | _, txn⟩ := result
      · cases raised <;> simp [Ffi.guard] at hout
      · simp only [guard_ok_out, Option.some.injEq] at hout
        subst hout
        exact ⟨_, rfl⟩

end Begins

section Walk

variable {C T S : Type} [OwnedSnapshotIter C] [TxnScanStream S] [OwnedTransaction T S]
  {opts : IterOptions} {start : Start} {source : Source C T S} {xs : List Item}
  {error : EngineError} {result : Except Crash (Bool × Option GoError) × Iter (Source C T S)}

-- A walk that is reset begins with the batch after it.
theorem reset_refill (it : Iter (Source C T S)) (hlive : it.Live) (hents : it.ents = [])
    (hdone : it.done = false) (hreset : it.i.reset = true) (hpending : it.i.pending = none)
    (h : it.i.source.FailsAfter it.i.bounds .range xs error) :
    it.Next = it.refill ∧ Iter.Awaits Source.Cut (some (.of_error error)) xs it.i := by
  refine ⟨Iter.Next_refill hlive (by simp [hents]) hdone, .coming hpending ?_⟩
  unfold Upcoming
  simp only [advance_in_batch, hreset, if_true, restart, on_source]
  exact h.yields

theorem Seek_failed {it : Iter (Source C T S)} (hlive : it.Live) {failure : Failure}
    (hfailure : failure.status ≠ OK) {target : Bytes} (h : (it.i.seek target).1 = fail failure) :
    (it.Seek target).1 = Iter.ending (some failure) := by
  obtain ⟨err, herr⟩ := Option.isSome_iff_exists.mp (surfaced_isSome hfailure)
  have hstatus : statusToErr failure.status (failure.detail.map RegolithError.into_raw) =
      some err := herr
  rcases hseek : it.i.seek target with ⟨answer, i⟩
  rw [hseek] at h
  simp only at h
  subst h
  have hreply : regolith_iter_seek it.invalidate.i (bytePtr target) .writable .writable =
      (Ffi.guard .writable (fail failure), i) := by
    simp [regolith_iter_seek, Iter.invalidate, hseek, fail, Except.bind]
  simp [Iter.Seek, hlive.not_closed, hreply, hstatus, Iter.ending, herr]

-- However it begins, a walk that finds an entry is taken up by a batch.
theorem Begins.refill (hbegins : Begins opts start source result)
    (h : source.FailsAfter opts.bounds start xs error) :
    (xs = [] ∧ result.1 = Iter.ending (some (.of_error error))) ∨
      ∃ it : Iter (Source C T S), it.Live ∧ it.done = false ∧ it.keysOnly = opts.KeysOnly ∧
        Iter.Awaits Source.Cut (some (.of_error error)) xs it.i ∧ result = it.refill := by
  have hopened (it : Iter (Source C T S))
      (hit : ∃ source, it = .opened (.from_source source opts.bounds) opts)
      (h : it.i.source.FailsAfter opts.bounds .range xs error) :
      ∃ it' : Iter (Source C T S), it'.Live ∧ it'.done = false ∧ it'.keysOnly = opts.KeysOnly ∧
        Iter.Awaits Source.Cut (some (.of_error error)) xs it'.i ∧ it.Next = it'.refill := by
    obtain ⟨source, rfl⟩ := hit
    have hlive : (Iter.opened (.from_source source opts.bounds) opts).Live := ⟨rfl, bounds_keys_only opts⟩
    obtain ⟨hnext, hawaits⟩ := reset_refill _ hlive rfl rfl rfl rfl h
    exact ⟨_, hlive, rfl, rfl, hawaits, hnext⟩
  cases hbegins with
  | snapshot db it hit => exact .inr (hopened it (newIter_db hit) h)
  | transaction closed resolved txn it hit => exact .inr (hopened it (newIter_txn hit) h)
  | reset it hit =>
      have hlive : it.Reset.Live := ⟨hit.live.not_closed, hit.live.keys_only⟩
      have hbounds : it.Reset.i.bounds = opts.bounds := hit.bounds
      obtain ⟨hnext, hawaits⟩ := reset_refill _ hlive rfl rfl rfl rfl (hbounds ▸ h)
      exact .inr ⟨it.Reset, hlive, rfl, hit.keysOnly, hawaits, hnext⟩
  | seek it hit target =>
      have hyields := h.yields
      rw [← hit.bounds] at hyields
      change (EntrySource.walking it.i.bounds Source.Cut).Yields _ xs
        (EntrySource.seek it.i.bounds target it.i.source) at hyields
      have hseek := RegolithIter.seek_eq it.i target
      cases xs with
      | nil => exact .inl ⟨rfl, Seek_failed hit.live (of_error_status_ne error) (hseek ▸ hyields.1)⟩
      | cons x xs =>
          obtain ⟨i, hi⟩ : ∃ i, i = (it.i.seek target).2 := ⟨_, rfl⟩
          have hfound : it.i.seek target = (.ok true, i) := by
            rw [hi, hseek]
            exact Prod.ext hyields.1 rfl
          have hcoming : Upcoming Source.Cut (some (.failure (.of_error error))) (x :: xs) i := by
            rw [hi, hseek]
            exact upcoming_landed rfl rfl hyields.stands
          have hpending : i.pending = none := by
            rw [hi, hseek]
            rfl
          have hbounds : i.bounds = opts.bounds := by
            rw [hi, hseek]
            exact hit.bounds
          have hlive : Iter.Live { it.invalidate with i := i } :=
            ⟨hit.not_closed, by rw [hbounds, bounds_keys_only]; exact hit.keysOnly.symm⟩
          exact .inr ⟨_, hlive, rfl, hit.keysOnly, .coming hpending hcoming,
            Iter.Seek_eq hit.live target hfound⟩

end Walk

-- A read that fails after some entries: wherever the failure falls, the walk reports
-- these entries, each with its own key and value, and then the engine's error, exactly
-- when frames and values stay below 2 GiB.
theorem read_failure_exact {C T S : Type} [OwnedSnapshotIter C] [TxnScanStream S]
    [OwnedTransaction T S] {opts : IterOptions} {start : Start} {source : Source C T S}
    {result : Except Crash (Bool × Option GoError) × Iter (Source C T S)}
    (hbegins : Begins opts start source result) {xs : List Item} {error : EngineError}
    (hsorted : xs.Pairwise opts.bounds.before)
    (hfails : source.FailsAfter opts.bounds start xs error) :
    (surfaced (.of_error error)).isSome ∧
      (Iter.cursor.Yields (some (.ok (false, surfaced (.of_error error)))) xs
          (Iter.answer result.1, result.2) ↔
        BatchesFit opts.KeysOnly xs ∧ ValuesFit opts.KeysOnly xs) := by
  have herror := surfaced_of_error error
  refine ⟨herror, ?_⟩
  have hfin : ∀ failure ∈ some (Failure.of_error error), failure.status ≠ OK := by
    rintro failure ⟨⟩
    exact of_error_status_ne error
  rcases hbegins.refill hfails with ⟨rfl, hending⟩ | ⟨it, hlive, hdone, hkeysOnly, hawaits, rfl⟩
  · have hfits : BatchesFit opts.KeysOnly [] ∧ ValuesFit opts.KeysOnly [] :=
      ⟨.nil, by simp [ValuesFit]⟩
    obtain ⟨err, herr⟩ := Option.isSome_iff_exists.mp herror
    refine iff_of_true ⟨?_, trivial⟩ hfits
    simp only [hending, Iter.ending, Option.bind_some, herr, Iter.answer]
  · rw [← hkeysOnly]
    constructor
    · intro hyields
      exact Iter.fits_of_finds hfin hlive hdone hawaits (Bounds.keys_nodup hsorted) hyields.finds
    · rintro ⟨hfit, hvalues⟩
      have harrives := Iter.refill_arrives hfin hlive hdone hawaits hfit
      exact harrives.yields hfin hlive.refill (by rwa [(Iter.refill_frame it).2])

section Example

-- An iterator of a transaction over a list, some of whose keys cannot be read.
def overList (bad : Bytes → Bool) (contents : Contents) (opts : IterOptions) :
    Iter (Source (ListCursor bad) (ListTxn bad) (ListStream bad)) :=
  .opened (.from_source (.Txn (.new ⟨contents⟩ false) none none) opts.bounds) opts

theorem newIter_overList (bad : Bytes → Bool) (contents : Contents) (opts : IterOptions) :
    Txn.NewIter (ListCursor bad) (ListStream bad) false false (.new ⟨contents⟩ false) opts =
      (.ok (overList bad contents opts), .new ⟨contents⟩ false) := rfl

theorem begins_overList (bad : Bytes → Bool) (contents : Contents) (opts : IterOptions) :
    Begins opts .range (overList bad contents opts).i.source (overList bad contents opts).Next :=
  .transaction false false _ _ (congrArg Prod.fst (newIter_overList bad contents opts))

theorem fails_overList {bad : Bytes → Bool} {contents : Contents} {opts : IterOptions}
    (front back : List Item) (x : Item)
    (hlist : opts.range contents.entries = front ++ x :: back)
    (hgood : ∀ y ∈ front, bad y.key = false) (hbad : bad x.key) :
    (overList bad contents opts).i.source.FailsAfter opts.bounds .range front
      (.Other "bad block") := by
  refine ⟨⟨contents⟩, _, ⟨rfl, rfl⟩, rfl, ?_⟩
  change StreamYields _ _ (⟨(scan_bounds opts.bounds.start opts.bounds.end_
    opts.bounds.direction).listing contents.entries⟩ : ListStream bad)
  rw [Source.listing_restart, ← range_eq_listing, hlist]
  exact ListStream.fails hgood hbad

end Example

theorem read_failure_exact_third :
    let opts : IterOptions := ⟨[], [], [], false, false⟩
    let bad : Bytes → Bool := (· = [3])
    let it := overList bad (.ofPairs [([1], [10]), ([2], []), ([3], [30])]) opts
    (surfaced (.of_error (.Other "bad block"))).isSome ∧
      (Iter.cursor.Yields (some (.ok (false, surfaced (.of_error (.Other "bad block")))))
          [⟨[1], [10]⟩, ⟨[2], []⟩] (Iter.answer it.Next.1, it.Next.2) ↔
        BatchesFit opts.KeysOnly [⟨[1], [10]⟩, ⟨[2], []⟩] ∧
          ValuesFit opts.KeysOnly [⟨[1], [10]⟩, ⟨[2], []⟩]) :=
  read_failure_exact (begins_overList _ _ _) (by decide)
    (fails_overList [⟨[1], [10]⟩, ⟨[2], []⟩] [] ⟨[3], [30]⟩ rfl (by decide) (by decide))

section LongKeys

def lastKey : Bytes := [0xff, 0xff]

theorem longKey_lt_lastKey (tail n : Nat) : longKey tail n < lastKey := by
  have hzeros : List.replicate tail (0 : UInt8) < [0xff] := by
    cases tail with
    | zero => exact List.nil_lt_cons _ _
    | succ tail => exact List.cons_lt_cons_iff.mpr (.inl (by decide))
  have hbyte := (UInt8.ofNat n).toNat_lt
  rcases Nat.lt_or_ge (UInt8.ofNat n).toNat 255 with hlt | hge
  · exact List.cons_lt_cons_iff.mpr (.inl (UInt8.lt_iff_toNat_lt.mpr hlt))
  · have htop : (0xff : UInt8).toNat = 255 := rfl
    have hlast : UInt8.ofNat n = 0xff := UInt8.toNat_inj.mp (by omega)
    exact List.cons_lt_cons_iff.mpr (.inr ⟨hlast, hzeros⟩)

-- 256 long keys, and one after them that cannot be read.
def longKeysThenLast (tail : Nat) : Contents where
  entries := (longKeys tail).entries ++ [⟨lastKey, []⟩]
  ascending := by
    refine List.pairwise_append.mpr ⟨(longKeys tail).ascending, List.pairwise_singleton _ _, ?_⟩
    simp only [longKeys, List.mem_map, List.mem_singleton]
    rintro _ ⟨n, -, rfl⟩ _ rfl
    exact longKey_lt_lastKey tail n

end LongKeys

-- The engine reads 256 keys of the greatest length it accepts by default, and then fails:
-- instead of the first of them there is a panic.
theorem long_keys_lost :
    let it := overList (· = lastKey) (longKeysThenLast 8388607) keysOfAll
    Begins keysOfAll .range it.i.source it.Next ∧
      it.i.source.FailsAfter keysOfAll.bounds .range (longKeys 8388607).entries
        (.Other "bad block") ∧
      it.Next.1 = .error (.panic "gobytes: length out of range") ∧
      ¬Iter.cursor.Yields (some (.ok (false, surfaced (.of_error (.Other "bad block")))))
        (longKeys 8388607).entries (Iter.answer it.Next.1, it.Next.2) := by
  obtain ⟨tail, htail⟩ : ∃ tail : Nat, tail = 8388607 := ⟨_, rfl⟩
  rw [← htail]
  intro it
  have hfails : it.i.source.FailsAfter keysOfAll.bounds .range (longKeys tail).entries
      (.Other "bad block") := by
    refine fails_overList _ [] ⟨lastKey, []⟩ (range_keysOfAll _) ?_ (by decide)
    simp only [longKeys, List.mem_map]
    rintro _ ⟨n, -, rfl⟩
    simpa using (longKey_lt_lastKey tail n).ne
  obtain ⟨-, hawaits⟩ := reset_refill it ⟨rfl, rfl⟩ rfl rfl rfl rfl hfails
  have hnext := Iter.Next_longKeys it ⟨rfl, rfl⟩ rfl rfl rfl hawaits (by omega) (by omega)
  refine ⟨begins_overList _ _ _, hfails, hnext, fun hyields => ?_⟩
  have hfound := hyields.finds
  rw [hnext] at hfound
  have hcons : (longKeys tail).entries = ⟨longKey tail 0, []⟩ :: (longKeys tail).entries.tail := rfl
  rw [hcons] at hfound
  exact absurd hfound.1 (by simp [Iter.answer])

end Regolith.Go
