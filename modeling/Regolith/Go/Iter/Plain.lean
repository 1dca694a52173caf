import Regolith.Ffi.Iter.Position
import Regolith.Ffi.ListEngine
import Regolith.Ffi.Source.Snapshot
import Regolith.Go.Iter.Narrowing

-- The Go iterator against a plain cursor over the entries of its range.
namespace Regolith.Go

open Ffi Ffi.RegolithIter

section Spec

def IterOptions.includes (opts : IterOptions) (key : Bytes) : Prop :=
  if opts.Prefix ≠ [] then opts.Prefix <+: key
  else (opts.Start = [] ∨ opts.Start ≤ key) ∧ (opts.End_ = [] ∨ key < opts.End_)

instance (opts : IterOptions) (key : Bytes) : Decidable (opts.includes key) := by
  unfold IterOptions.includes
  infer_instance

-- The entries of the range, in the order asked for.
def IterOptions.range (opts : IterOptions) (entries : List Item) : List Item :=
  (if opts.Reverse then entries.reverse else entries).filter (opts.includes ·.key)

-- Whether an entry is at or past a target, in the order asked for.
def IterOptions.reaches (opts : IterOptions) (target : Bytes) (x : Item) : Bool :=
  if opts.Reverse then x.key ≤ target else target ≤ x.key

inductive CursorCall where
  | Next
  | Seek (target : Bytes)
  | Reset
  | Key
  | Value

inductive Outcome where
  | moved (result : Except Crash (Bool × Option GoError))
  | reset
  | key (result : Except Crash (Option Bytes))
  | value (result : Except Crash (Option Bytes × Option GoError))

def CursorCall.run {σ : Type} [EntrySource σ] (it : Iter σ) : CursorCall → Outcome × Iter σ
  | .Next => (.moved it.Next.1, it.Next.2)
  | .Seek target => (.moved (it.Seek target).1, (it.Seek target).2)
  | .Reset => (.reset, it.Reset)
  | .Key => (.key it.Key, it)
  | .Value => (.value it.Value, it)

def outcomes {σ : Type} [EntrySource σ] (it : Iter σ) : List CursorCall → List Outcome
  | [] => []
  | call :: calls => (call.run it).1 :: outcomes (call.run it).2 calls

-- Positions of a plain cursor: 0 is before the list, and n + 1 on its entry n, or at
-- the end when there is none.
def entryAt (list : List Item) : Nat → Option Item
  | 0 => none
  | n + 1 => list[n]?

def CursorCall.plain (opts : IterOptions) (list : List Item) (position : Nat) :
    CursorCall → Outcome × Nat
  | .Next =>
      let position := min (position + 1) (list.length + 1)
      (.moved (.ok ((entryAt list position).isSome, none)), position)
  | .Seek target =>
      let position := list.findIdx (opts.reaches target) + 1
      (.moved (.ok ((entryAt list position).isSome, none)), position)
  | .Reset => (.reset, 0)
  | .Key => (.key (.ok ((entryAt list position).map (·.key))), position)
  | .Value => (.value (.ok ((entryAt list position).bind (lent opts.KeysOnly), none)), position)

def plainOutcomes (opts : IterOptions) (list : List Item) (position : Nat) :
    List CursorCall → List Outcome
  | [] => []
  | call :: calls =>
      (call.plain opts list position).1 ::
        plainOutcomes opts list (call.plain opts list position).2 calls

-- Every batch that can be taken from somewhere in the list has a frame that an `int32`
-- can index, and every value a length that an `int` can hold.
structure Measurable (keysOnly : Bool) (list : List Item) : Prop where
  frames : ∀ index,
    (key_frame (gathered keysOnly batchEntries 0 (list.drop index))).length < 2 ^ 31
  values : ValuesFit keysOnly list

end Spec

section Range

variable (opts : IterOptions) (entries : List Item)

def IterOptions.bounds : Bounds := bounds_from (some (newIterOptions opts))

theorem cBool_ne_zero (b : Bool) : decide (cBool b ≠ 0) = b := by
  cases b <;> rfl

theorem bounds_reverse : opts.bounds.reverse = opts.Reverse := cBool_ne_zero opts.Reverse

theorem bounds_keys_only : opts.bounds.keys_only = opts.KeysOnly := cBool_ne_zero opts.KeysOnly

theorem bounds_contains (key : Bytes) : opts.bounds.contains key ↔ opts.includes key := by
  rw [Bounds.contains_iff]
  simp only [IterOptions.bounds, bounds_from, newIterOptions, in_opt_bytes_bytePtr,
    Bounds.above_start, Bounds.below_end, IterOptions.includes]
  by_cases hfront : opts.Prefix = []
  · by_cases hstart : opts.Start = [] <;> by_cases hend : opts.End_ = [] <;>
      simp [hfront, hstart, hend]
  · simpa [hfront] using prefix_end_iff opts.Prefix key

theorem range_eq_listing : opts.range entries = opts.bounds.listing entries := by
  simp only [IterOptions.range, Bounds.listing, Bounds.oriented, bounds_reverse]
  apply List.filter_congr
  intro x _
  rw [Bool.eq_iff_iff, decide_eq_true_iff]
  exact (bounds_contains opts x.key).symm

theorem reaches_eq_reached (target : Bytes) : opts.reaches target = opts.bounds.reached target := by
  funext x
  simp only [IterOptions.reaches, Bounds.reached, bounds_reverse]
  cases opts.Reverse <;> simp [← decide_not]

end Range

section Positions

variable {opts : IterOptions} {list : List Item} {position : Nat} {x : Item} {xs : List Item}

theorem entryAt_next (h : list.drop position = x :: xs) :
    entryAt list (min (position + 1) (list.length + 1)) = some x ∧
      list.drop (min (position + 1) (list.length + 1)) = xs := by
  have hlt : position < list.length := by
    by_contra hout
    rw [List.drop_eq_nil_iff.mpr (not_lt.mp hout)] at h
    simp at h
  rw [min_eq_left (by omega)]
  refine ⟨?_, ?_⟩
  · change list[position]? = some x
    rw [← List.head?_drop, h]
    rfl
  · rw [← List.tail_drop, h]
    rfl

theorem entryAt_end (h : list.drop position = []) :
    entryAt list (min (position + 1) (list.length + 1)) = none ∧
      list.drop (min (position + 1) (list.length + 1)) = [] := by
  have hout : list.length ≤ position := List.drop_eq_nil_iff.mp h
  rw [min_eq_right (by omega)]
  exact ⟨by simp [entryAt], by simp⟩

-- From every position a walk takes batches that fit.
theorem Measurable.batches {keysOnly : Bool} (h : Measurable keysOnly list) (index : Nat) :
    BatchesFit keysOnly (list.drop index) := by
  induction hsize : (list.drop index).length using Nat.strongRecOn generalizing index with
  | ind n ih =>
      rcases hdrop : list.drop index with _ | ⟨x, xs⟩
      · exact .nil
      · have htaken := batch_ne_nil keysOnly x xs
        have hshort := h.frames index
        rw [hdrop] at hshort hsize
        generalize hgathered : gathered keysOnly batchEntries 0 (x :: xs) = taken at *
        have hpos := List.length_pos_of_ne_nil htaken
        refine .batch (hgathered ▸ hshort) ?_
        rw [hgathered, ← hdrop, List.drop_drop]
        refine ih _ ?_ _ rfl
        rw [← List.drop_drop, hdrop, List.length_drop, hsize]
        simp only [List.length_cons] at hsize
        omega

end Positions

namespace Iter

open EntrySource

variable {σ : Type} [EntrySource σ] {it : Iter σ} {opts : IterOptions} {list : List Item}
  {LiveSource Cut : σ → Prop} {position : Nat} {xs : List Item}

-- The iterator has the plain cursor's position.
structure Follows (opts : IterOptions) (list : List Item) (LiveSource Cut : σ → Prop)
    (position : Nat) (it : Iter σ) : Prop where
  live : it.Live
  keysOnly : it.keysOnly = opts.KeysOnly
  bounds : it.i.bounds = opts.bounds
  source : LiveSource it.i.source
  ready : Ready Cut none (entryAt list position) (list.drop position) it

theorem fails_none : ∀ failure ∈ (none : Option Failure), failure.status ≠ OK := by simp

-- A seek without the batch that follows it, on an entry or at the end.
theorem Seek_eq (hlive : it.Live) (target : Bytes) {found : Bool} {i : RegolithIter σ}
    (h : it.i.seek target = (.ok found, i)) :
    it.Seek target =
      if found then refill { it.invalidate with i := i }
      else (.ok (false, none), { it.invalidate with i := i, done := true }) := by
  have hreply : regolith_iter_seek it.invalidate.i (bytePtr target) .writable .writable =
      (guard .writable (.ok found), i) := by
    simp [regolith_iter_seek, invalidate, h, Except.bind]
  simp only [Seek, hlive.not_closed, hreply]
  cases found <;> simp

variable (walks : Walks opts.bounds list False LiveSource Cut) (hsorted : list.Pairwise opts.bounds.before)

include walks

-- A walk that is still to begin is before the whole list.
theorem follows_start (hlive : it.Live) (hkeysOnly : it.keysOnly = opts.KeysOnly)
    (hbounds : it.i.bounds = opts.bounds) (hsource : LiveSource it.i.source)
    (hfit : BatchesFit opts.KeysOnly list) (hents : it.ents = []) (hdone : it.done = false)
    (hreset : it.i.reset = true) (hcurrent : it.i.include_current = false)
    (hpending : it.i.pending = none) : Follows opts list LiveSource Cut 0 it := by
  have hplaced : Placed opts.bounds list LiveSource Cut .start it.i :=
    ⟨hbounds, hsource, hpending, .restarting hreset hcurrent⟩
  refine ⟨hlive, hkeysOnly, hbounds, hsource, ?_⟩
  refine .awaiting hents hdone (.coming hpending (hplaced.upcoming walks)) ?_
  rw [hkeysOnly]
  exact hfit

theorem Follows.reset (hmeasurable : Measurable opts.KeysOnly list)
    (h : Follows opts list LiveSource Cut position it) :
    Follows opts list LiveSource Cut 0 it.Reset :=
  follows_start walks ⟨h.live.not_closed, h.live.keys_only⟩ h.keysOnly h.bounds h.source
    (hmeasurable.batches 0) rfl rfl rfl rfl rfl

omit walks in
-- A move to the next entry, wherever it comes from.
theorem Ready.next (hlive : it.Live)
    (h : Ready Cut none (entryAt list position) (list.drop position) it) :
    it.Next.1 = .ok ((entryAt list (min (position + 1) (list.length + 1))).isSome, none) ∧
      Ready Cut none (entryAt list (min (position + 1) (list.length + 1)))
        (list.drop (min (position + 1) (list.length + 1))) it.Next.2 := by
  have harrives := Next_arrives fails_none hlive h
  rcases hdrop : list.drop position with _ | ⟨x, xs⟩
  · obtain ⟨hat, hrest⟩ := entryAt_end hdrop
    rw [hdrop] at harrives
    rw [hat, hrest]
    exact ⟨harrives.1, harrives.2 rfl⟩
  · obtain ⟨hat, hrest⟩ := entryAt_next hdrop
    rw [hdrop] at harrives
    rw [hat, hrest]
    exact harrives

theorem Follows.next (h : Follows opts list LiveSource Cut position it) :
    it.Next.1 = .ok ((entryAt list (min (position + 1) (list.length + 1))).isSome, none) ∧
      Follows opts list LiveSource Cut (min (position + 1) (list.length + 1)) it.Next.2 := by
  obtain ⟨hresult, hready⟩ := h.ready.next h.live
  obtain ⟨hbounds, hsource⟩ :=
    Next_keeps (keepsLive walks.live_restart walks.live_step) ⟨h.bounds, h.source⟩
  exact ⟨hresult, h.live.Next, (Next_frame it).2.trans h.keysOnly, hbounds, hsource, hready⟩

-- A seek lands in the list wherever it comes from.
theorem follows_seek (hsorted : list.Pairwise opts.bounds.before) (hlive : it.Live)
    (hkeysOnly : it.keysOnly = opts.KeysOnly) (hbounds : it.i.bounds = opts.bounds)
    (hsource : LiveSource it.i.source) (target : Bytes)
    (hfit : BatchesFit opts.KeysOnly (list.drop (list.findIdx (opts.reaches target)))) :
    (it.Seek target).1 =
        .ok ((entryAt list (list.findIdx (opts.reaches target) + 1)).isSome, none) ∧
      Follows opts list LiveSource Cut (list.findIdx (opts.reaches target) + 1)
        (it.Seek target).2 := by
  obtain ⟨hresult, -, hplaced⟩ := placed_seek walks hsorted hbounds hsource target
  rw [reaches_eq_reached] at hfit ⊢
  generalize list.findIdx (opts.bounds.reached target) = index at *
  rcases hseek : it.i.seek target with ⟨result, i⟩
  rw [hseek] at hresult hplaced
  simp only at hresult hplaced
  subst hresult
  have hsought : Live { it.invalidate with i := i } :=
    ⟨hlive.not_closed, (congrArg Bounds.keys_only (hplaced.bounds.trans hbounds.symm)).trans
      hlive.keys_only⟩
  rw [Seek_eq hlive target hseek]
  cases hentry : list[index]? with
  | none =>
      have hnone : entryAt list (index + 1) = none := hentry
      have hbeyond : list.drop (index + 1) = [] :=
        List.drop_eq_nil_iff.mpr (Nat.le_succ_of_le (List.getElem?_eq_none_iff.mp hentry))
      simp only [hnone, Option.isSome_none, Bool.false_eq_true, if_false]
      refine ⟨trivial, ⟨hsought.not_closed, hsought.keys_only⟩, hkeysOnly, hplaced.bounds,
        hplaced.live, ?_⟩
      rw [hnone, hbeyond]
      exact .ended rfl rfl rfl
  | some x =>
      have hsome : entryAt list (index + 1) = some x := hentry
      have hdrop : list.drop index = x :: list.drop (index + 1) := by
        obtain ⟨hlt, rfl⟩ := List.getElem?_eq_some_iff.mp hentry
        exact List.drop_eq_getElem_cons hlt
      rw [← hkeysOnly] at hfit
      have harrives : Arrives Cut none (list.drop index) (refill { it.invalidate with i := i }) :=
        refill_arrives fails_none hsought rfl (.coming hplaced.pending (hplaced.upcoming walks)) hfit
      have hkept : i.bounds = opts.bounds ∧ LiveSource i.source := ⟨hplaced.bounds, hplaced.live⟩
      have hkeeps : (refill { it.invalidate with i := i }).2.i.bounds = opts.bounds ∧
          LiveSource (refill { it.invalidate with i := i }).2.i.source :=
        refill_keeps (keepsLive walks.live_restart walks.live_step) hkept
      have hframe := (refill_frame { it.invalidate with i := i }).2.trans hkeysOnly
      rw [hdrop] at harrives
      simp only [hsome, Option.isSome_some, if_true]
      refine ⟨harrives.1, hsought.refill, hframe, hkeeps.1, hkeeps.2, ?_⟩
      rw [hsome]
      exact harrives.2

-- One call keeps the iterator and the plain cursor together.
theorem Follows.run (hsorted : list.Pairwise opts.bounds.before)
    (hmeasurable : Measurable opts.KeysOnly list)
    (h : Follows opts list LiveSource Cut position it) (call : CursorCall) :
    (call.run it).1 = (call.plain opts list position).1 ∧
      Follows opts list LiveSource Cut (call.plain opts list position).2 (call.run it).2 := by
  have hreads : it.Reads (entryAt list position) := by
    apply h.ready.reads
    intro x hx hvalues
    refine hmeasurable.values (h.keysOnly ▸ hvalues) x ?_
    cases position with
    | zero => simp [entryAt] at hx
    | succ n => exact List.mem_of_getElem? hx
  cases call with
  | Next =>
      obtain ⟨hresult, hafter⟩ := h.next walks
      exact ⟨congrArg Outcome.moved hresult, hafter⟩
  | Seek target =>
      obtain ⟨hresult, hafter⟩ := follows_seek walks hsorted h.live h.keysOnly h.bounds h.source
        target (hmeasurable.batches _)
      exact ⟨congrArg Outcome.moved hresult, hafter⟩
  | Reset => exact ⟨rfl, h.reset walks hmeasurable⟩
  | Key => exact ⟨congrArg Outcome.key hreads.1, h⟩
  | Value =>
      refine ⟨congrArg Outcome.value ?_, h⟩
      rw [hreads.2, h.keysOnly]

theorem Follows.outcomes (hsorted : list.Pairwise opts.bounds.before)
    (hmeasurable : Measurable opts.KeysOnly list)
    (h : Follows opts list LiveSource Cut position it) (calls : List CursorCall) :
    Go.outcomes it calls = plainOutcomes opts list position calls := by
  induction calls generalizing position it with
  | nil => rfl
  | cons call calls ih =>
      obtain ⟨hout, hafter⟩ := h.run walks hsorted hmeasurable call
      exact congrArg₂ List.cons hout (ih hafter)

omit walks in
-- Reads at an entry, and a move to the next.
def probe : Nat → List CursorCall
  | 0 => []
  | n + 1 => .Key :: .Value :: .Next :: probe n

omit walks in
theorem finds_of_outcomes (hkeysOnly : it.keysOnly = opts.KeysOnly) (hdrop : list.drop position = xs)
    (h : Go.outcomes it (probe xs.length) =
      plainOutcomes opts list (position + 1) (probe xs.length)) :
    (cursor : Pull (Iter σ) _ _).Finds xs (.ok true, it) := by
  induction xs generalizing it position with
  | nil => trivial
  | cons x xs ih =>
      have hentry : entryAt list (position + 1) = some x := by
        change list[position]? = some x
        rw [← List.head?_drop, hdrop]
        rfl
      have hrest : list.drop (position + 1) = xs := by
        rw [← List.tail_drop, hdrop]
        rfl
      have hlt : position < list.length := by
        by_contra hout
        rw [List.drop_eq_nil_iff.mpr (not_lt.mp hout)] at hdrop
        simp at hdrop
      simp only [List.length_cons, probe, Go.outcomes, plainOutcomes, CursorCall.run,
        CursorCall.plain, hentry, List.cons.injEq, Outcome.key.injEq, Outcome.value.injEq,
        Outcome.moved.injEq, min_eq_left (show position + 1 + 1 ≤ list.length + 1 by omega)] at h
      obtain ⟨hkey, hvalue, hnext, hmore⟩ := h
      refine ⟨rfl, ⟨hkey, ?_⟩, ?_⟩
      · rw [hkeysOnly]
        exact hvalue
      · have hfinds := ih ((Next_frame it).2.trans hkeysOnly) hrest hmore
        change (cursor : Pull (Iter σ) _ _).Finds xs (answer it.Next.1, it.Next.2)
        cases xs with
        | nil => trivial
        | cons y ys =>
            have hsome : entryAt list (position + 1 + 1) = some y := by
              change list[position + 1]? = some y
              rw [← List.head?_drop, hrest]
              rfl
            rw [hnext, hsome]
            exact hfinds

-- An iterator that always behaves as the plain cursor shows that the frames and values
-- of its range fit: a seek to the first entry of a batch, and a walk on from there.
theorem Follows.measurable (hsorted : list.Pairwise opts.bounds.before)
    (hlive : it.Live) (hkeysOnly : it.keysOnly = opts.KeysOnly)
    (hbounds : it.i.bounds = opts.bounds) (hsource : LiveSource it.i.source)
    (h : ∀ calls, Go.outcomes it calls = plainOutcomes opts list position calls) :
    Measurable opts.KeysOnly list := by
  have hfits (index : Nat) (hindex : index < list.length) :
      BatchesFit opts.KeysOnly (list.drop index) ∧ ValuesFit opts.KeysOnly (list.drop index) := by
    have hfound := Bounds.findIdx_reached hsorted hindex
    obtain ⟨hresult, -, hplaced⟩ := placed_seek walks hsorted hbounds hsource list[index].key
    have hrun := h (.Seek list[index].key :: probe (list.drop index).length)
    have hentry : entryAt list (index + 1) = some list[index] := List.getElem?_eq_getElem hindex
    simp only [Go.outcomes, plainOutcomes, CursorCall.run, CursorCall.plain, reaches_eq_reached,
      hfound, hentry, List.cons.injEq, Outcome.moved.injEq, Option.isSome_some] at hrun
    rw [hfound] at hresult hplaced
    rw [List.getElem?_eq_getElem hindex] at hresult
    rcases hseek : it.i.seek list[index].key with ⟨result, i⟩
    rw [hseek] at hresult hplaced
    simp only [Option.isSome_some] at hresult hplaced
    subst hresult
    have hSeek := Seek_eq hlive list[index].key hseek
    rw [if_pos rfl] at hSeek
    have hlive' : Live { it.invalidate with i := i } :=
      ⟨hlive.not_closed, (congrArg Bounds.keys_only (hplaced.bounds.trans hbounds.symm)).trans
        hlive.keys_only⟩
    have hkeysOnly' : (it.Seek list[index].key).2.keysOnly = opts.KeysOnly := by
      rw [hSeek]
      exact (refill_frame _).2.trans hkeysOnly
    have hfinds := finds_of_outcomes hkeysOnly' rfl hrun.2
    have hanswer : answer (it.Seek list[index].key).1 = .ok true := by
      rw [hrun.1]
      rfl
    rw [← hanswer, hSeek] at hfinds
    have hboth := fits_of_finds fails_none hlive' rfl
      (.coming hplaced.pending (hplaced.upcoming walks))
      (Bounds.keys_nodup (hsorted.sublist (List.drop_sublist _ _))) hfinds
    rwa [show Iter.keysOnly { it.invalidate with i := i } = opts.KeysOnly from hkeysOnly] at hboth
  refine ⟨fun index => ?_, fun hvalues x hx => ?_⟩
  · rcases Nat.lt_or_ge index list.length with hlt | hge
    · exact (hfits index hlt).1.head
    · rw [List.drop_eq_nil_iff.mpr hge]
      simp [gathered, key_frame, batchEntries]
  · cases list with
    | nil => simp at hx
    | cons y ys => exact (hfits 0 (by simp)).2 hvalues x hx

end Iter

instance : SnapshotStore Contents (ListCursor noBad) := ⟨ListCursor.start noBad⟩

-- An iterator of an open database behaves as the plain cursor over its range, through
-- every sequence of calls, exactly when frames and values of that range stay below 2 GiB.
theorem plain_cursor_exact {St C T S : Type} [SnapshotStore St C] [OwnedSnapshotIter C]
    [TxnScanStream S] [OwnedTransaction T S] {entries : C → List Item}
    (laws : CursorLaws entries False) (store : St) (opts : IterOptions) :
    let list := opts.range (entries (SnapshotStore.into_owned_iter store))
    ∃ it, DB.NewIter T S ⟨some store, false⟩ opts = .ok it ∧
      ((∀ calls, outcomes it calls = plainOutcomes opts list 0 calls) ↔
        Measurable opts.KeysOnly list) := by
  intro list
  let cursor : C := SnapshotStore.into_owned_iter store
  have hlist : list = opts.bounds.listing (entries cursor) := range_eq_listing opts _
  have hwalks := Source.snapshot_walks (T := T) (S := S) laws opts.bounds (entries cursor)
  have hsorted : list.Pairwise opts.bounds.before :=
    hlist ▸ opts.bounds.listing_sorted (laws.ascending cursor)
  rw [← hlist] at hwalks
  refine ⟨.opened (over_snapshot T S cursor opts.bounds) opts, rfl, ?_⟩
  have hkeys : (over_snapshot T S cursor opts.bounds).bounds.keys_only = opts.KeysOnly :=
    bounds_keys_only opts
  have hsource : Source.OverSnapshot entries (entries cursor)
      (over_snapshot T S cursor opts.bounds).source := rfl
  constructor
  · intro h
    exact Iter.Follows.measurable hwalks hsorted ⟨rfl, hkeys⟩ rfl rfl hsource h
  · intro hmeasurable calls
    have hfollows : Iter.Follows opts list (Source.OverSnapshot entries (entries cursor)) Source.Cut
        0 (.opened (over_snapshot T S cursor opts.bounds) opts) :=
      Iter.follows_start hwalks ⟨rfl, hkeys⟩ rfl rfl hsource (hmeasurable.batches 0)
        rfl rfl rfl rfl rfl
    exact hfollows.outcomes hwalks hsorted hmeasurable calls

theorem plain_cursor_exact_prefix :
    let opts : IterOptions := ⟨[1], [9], [], true, false⟩
    let store := Contents.ofPairs [([1], [10]), ([1, 7], []), ([2], [20])]
    let list := opts.range store.entries
    ∃ it, DB.NewIter (ListTxn noBad) (ListStream noBad) ⟨some store, false⟩ opts = .ok it ∧
      ((∀ calls, outcomes it calls = plainOutcomes opts list 0 calls) ↔
        Measurable opts.KeysOnly list) :=
  plain_cursor_exact ListCursor.soundLaws _ _

section LongKeys

-- 256 keys of one length.
def longKey (tail n : Nat) : Bytes := UInt8.ofNat n :: List.replicate tail 0

def longKeys (tail : Nat) : Contents where
  entries := (List.range 256).map fun n => ⟨longKey tail n, []⟩
  ascending := by
    refine List.pairwise_map.mpr (List.pairwise_lt_range.imp_of_mem fun {m n} hm hn hlt => ?_)
    have hbyte : UInt8.ofNat m < UInt8.ofNat n := by
      have hm' := List.mem_range.mp hm
      have hn' := List.mem_range.mp hn
      rw [UInt8.lt_iff_toNat_lt, UInt8.toNat_ofNat', UInt8.toNat_ofNat']
      omega
    exact List.cons_lt_cons_iff.mpr (.inl hbyte)

theorem length_key_frame (xs : List Item) :
    (key_frame xs).length = (xs.map (4 + ·.key.length)).sum := by
  induction xs with
  | nil => rfl
  | cons x xs ih => simp [ih, Nat.add_assoc]

theorem length_longKeys_frame (tail : Nat) :
    (key_frame (longKeys tail).entries).length = 256 * (tail + 5) := by
  have hlength (n : Nat) : (longKey tail n).length = tail + 1 := by simp [longKey]
  rw [length_key_frame, longKeys, List.map_map]
  simp only [Function.comp_def, hlength, List.map_const', List.length_range, List.sum_replicate_nat]
  omega

-- Under `KeysOnly` a batch takes as many entries as it may.
theorem gathered_keys_only (rounds retained : Nat) (xs : List Item) :
    gathered true rounds retained xs = xs.take rounds := by
  induction rounds generalizing xs with
  | zero => simp [gathered]
  | succ rounds ih =>
      cases xs with
      | nil => simp [gathered]
      | cons x xs => simp [gathered, ih]

-- A frame from 2 GiB up to 4 GiB has a negative length as a C `int`.
theorem GoBytes_long {bytes : Bytes} (hlong : 2 ^ 31 ≤ bytes.length)
    (hshort : bytes.length < 2 ^ 32) :
    GoBytes bytes (.ofNat bytes.length) = .error (.panic "gobytes: length out of range") := by
  have hnegative : (Int32.ofNat bytes.length).toInt < 0 := by
    rw [Int32.toInt_ofNat', Int.bmod_def, Int32.size]
    omega
  simp only [GoBytes, hnegative, if_true]

-- A first batch whose frame is that long.
theorem Iter.Next_long {σ : Type} [EntrySource σ] {it : Iter σ} {Cut : σ → Prop}
    {fin : Option Failure} {xs : List Item} (hlive : it.Live) (hents : it.ents = [])
    (hdone : it.done = false) (h : Iter.Awaits Cut fin xs it.i)
    (hkeys : Framable (gathered it.keysOnly batchEntries 0 xs))
    (hlong : 2 ^ 31 ≤ (key_frame (gathered it.keysOnly batchEntries 0 xs)).length)
    (hshort : (key_frame (gathered it.keysOnly batchEntries 0 xs)).length < 2 ^ 32) :
    it.Next.1 = .error (.panic "gobytes: length out of range") := by
  rw [Iter.Next_refill hlive (by simp [hents]) hdone]
  cases xs with
  | nil => simp [gathered, key_frame, batchEntries] at hlong
  | cons x xs =>
      rcases Iter.refill_more hlive h with ⟨hnot, -⟩ | ⟨-, i, -, hrefill⟩
      · exact absurd hkeys hnot
      · rw [hrefill, Iter.load, GoBytes_long hlong hshort]

def keysOfAll : IterOptions := ⟨[], [], [], false, true⟩

theorem range_keysOfAll (entries : List Item) : keysOfAll.range entries = entries := by
  simp [IterOptions.range, IterOptions.includes, keysOfAll]

@[simp] theorem length_longKeys (tail : Nat) : (longKeys tail).entries.length = 256 := by
  simp [longKeys]

theorem gathered_longKeys (tail : Nat) :
    gathered true batchEntries 0 (longKeys tail).entries = (longKeys tail).entries := by
  rw [gathered_keys_only, List.take_of_length_le (by simp [batchEntries])]

theorem framable_longKeys {tail : Nat} (h : tail + 1 < 2 ^ 32) :
    Framable (longKeys tail).entries := by
  simp only [Framable, longKeys, List.forall_mem_map, longKey, List.length_cons,
    List.length_replicate]
  exact fun _ _ => h

theorem Iter.Next_longKeys {σ : Type} [EntrySource σ] (it : Iter σ) {Cut : σ → Prop}
    {fin : Option Failure} {tail : Nat} (hlive : it.Live) (hents : it.ents = [])
    (hdone : it.done = false) (hkeysOnly : it.keysOnly = true)
    (h : Iter.Awaits Cut fin (longKeys tail).entries it.i) (hlong : 2 ^ 31 ≤ 256 * (tail + 5))
    (hshort : 256 * (tail + 5) < 2 ^ 32) :
    it.Next.1 = .error (.panic "gobytes: length out of range") := by
  have hall : gathered it.keysOnly batchEntries 0 (longKeys tail).entries =
      (longKeys tail).entries := by
    rw [hkeysOnly, gathered_longKeys]
  refine Iter.Next_long hlive hents hdone h ?_ ?_ ?_
  · rw [hall]
    exact framable_longKeys (by omega)
  · rwa [hall, length_longKeys_frame]
  · rwa [hall, length_longKeys_frame]

end LongKeys

-- 256 keys of the greatest length that the engine accepts by default: the plain cursor
-- moves onto the first of them, where `Next` panics.
theorem long_keys_panic :
    ∃ it, DB.NewIter (ListTxn noBad) (ListStream noBad) ⟨some (longKeys 8388607), false⟩
        keysOfAll = .ok it ∧
      outcomes it [.Next] = [.moved (.error (.panic "gobytes: length out of range"))] ∧
      plainOutcomes keysOfAll (keysOfAll.range (longKeys 8388607).entries) 0 [.Next] =
        [.moved (.ok (true, none))] := by
  obtain ⟨tail, htail⟩ : ∃ tail : Nat, tail = 8388607 := ⟨_, rfl⟩
  rw [← htail, range_keysOfAll]
  have hwalks := Source.snapshot_walks (T := ListTxn noBad) (S := ListStream noBad)
    ListCursor.soundLaws keysOfAll.bounds (longKeys tail).entries
  rw [← range_eq_listing, range_keysOfAll] at hwalks
  have hplaced : Placed keysOfAll.bounds (longKeys tail).entries
      (Source.OverSnapshot (·.contents.entries) (longKeys tail).entries) Source.Cut .start
      (over_snapshot (ListTxn noBad) (ListStream noBad) (ListCursor.start noBad (longKeys tail))
        keysOfAll.bounds) := placed_over rfl
  have hawaits : Iter.Awaits Source.Cut none (longKeys tail).entries
      (over_snapshot (ListTxn noBad) (ListStream noBad) (ListCursor.start noBad (longKeys tail))
        keysOfAll.bounds) := .coming rfl (hplaced.upcoming hwalks)
  refine ⟨⟨false, _, true, [], [], 0, false⟩, rfl, ?_, ?_⟩
  · have hnext := Iter.Next_longKeys ⟨false, _, true, [], [], 0, false⟩ ⟨rfl, rfl⟩ rfl rfl rfl
      hawaits (by omega) (by omega)
    exact congrArg (fun result => [Outcome.moved result]) hnext
  · simp [plainOutcomes, CursorCall.plain, entryAt]

end Regolith.Go
