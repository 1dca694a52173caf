import Regolith.Ffi.Iter.Batches
import Regolith.Go.Iter.Rewind
import Regolith.Go.Iter.Samples

-- The loop over an iterator, and how many batches it takes from the boundary.
namespace Regolith.Go

open Ffi Ffi.RegolithIter

section Loop

-- How a loop ended, what it made of its entries, and how many batches it asked for.
structure Scanned (ρ : Type) where
  ended : Except Crash (Option GoError)
  result : ρ
  refills : Nat

variable {σ ρ : Type} [EntrySource σ]

-- How many times a `Next` asks for a batch.
def Iter.refills (it : Iter σ) : Nat :=
  if it.db_closed then 0 else if it.pos + 1 < it.ents.length then 0 else if it.done then 0 else 1

-- `for { hasNext, err := it.Next() ... }` until there is no entry or a call goes wrong, with
-- what is made of each key and its value, and the rounds left.
def Iter.scan (visit : ρ → Option Bytes → Option Bytes → ρ) :
    Nat → Iter σ → ρ → Option (Scanned ρ)
  | 0, _, _ => none
  | rounds + 1, it, result =>
      match it.Next with
      | (.error crash, _) => some ⟨.error crash, result, it.refills⟩
      | (.ok (_, some err), _) => some ⟨.ok (some err), result, it.refills⟩
      | (.ok (false, none), _) => some ⟨.ok none, result, it.refills⟩
      | (.ok (true, none), next) =>
          match next.Key, next.Value with
          | .error crash, _ => some ⟨.error crash, result, it.refills⟩
          | .ok _, .error crash => some ⟨.error crash, result, it.refills⟩
          | .ok _, .ok (_, some err) => some ⟨.ok (some err), result, it.refills⟩
          | .ok key, .ok (value, none) =>
              (next.scan visit rounds (visit result key value)).map fun rest =>
                { rest with refills := it.refills + rest.refills }

end Loop

section Batches

-- A walk over the entries takes so many batches.
inductive Takes (keysOnly : Bool) : List Item → Nat → Prop where
  | nil : Takes keysOnly [] 0
  | batch {x : Item} {xs : List Item} {n : Nat}
      (rest : Takes keysOnly ((x :: xs).drop (gathered keysOnly batchEntries 0 (x :: xs)).length) n) :
      Takes keysOnly (x :: xs) (n + 1)

variable {keysOnly : Bool} {x : Item} {xs : List Item} {n : Nat}

def valueBytes (xs : List Item) : Nat := (xs.map (·.value.length)).sum

theorem valueBytes_append (xs ys : List Item) :
    valueBytes (xs ++ ys) = valueBytes xs + valueBytes ys := by
  simp [valueBytes]

-- A batch is full of entries or of value bytes, or takes all there is.
theorem batch_full (keysOnly : Bool) (xs : List Item) :
    (gathered keysOnly batchEntries 0 xs).length = batchEntries ∨
      keysOnly = false ∧ MAX_BATCH_VALUE_BYTES ≤ valueBytes (gathered keysOnly batchEntries 0 xs) ∨
      gathered keysOnly batchEntries 0 xs = xs := by
  rcases Nat.lt_or_eq_of_le (gathered_length_le keysOnly batchEntries 0 xs) with hshort | hfull
  · rcases gathered_short hshort with ⟨hvalues, hcap⟩ | hall
    · exact .inr (.inl ⟨hvalues, by simpa [valueBytes] using hcap⟩)
    · exact .inr (.inr hall)
  · exact .inl hfull

theorem gathered_append_drop (keysOnly : Bool) (xs : List Item) :
    gathered keysOnly batchEntries 0 xs ++
      xs.drop (gathered keysOnly batchEntries 0 xs).length = xs := by
  obtain ⟨later, hlater⟩ := gathered_prefix keysOnly batchEntries 0 xs
  conv_rhs => rw [← hlater]
  rw [← hlater, List.drop_left']
  rw [hlater]

-- One batch for each 256 entries and for each MiB of values, and one for the rest.
theorem Takes.le (h : Takes keysOnly xs n) :
    n ≤ xs.length / batchEntries + valueBytes xs / MAX_BATCH_VALUE_BYTES + 1 := by
  induction h with
  | nil => exact Nat.zero_le _
  | @batch x xs n rest ih =>
      have hsplit := gathered_append_drop keysOnly (x :: xs)
      have hfull := batch_full keysOnly (x :: xs)
      generalize gathered keysOnly batchEntries 0 (x :: xs) = taken at *
      generalize (x :: xs).drop taken.length = later at *
      rw [← hsplit, valueBytes_append, List.length_append]
      simp only [batchEntries, MAX_BATCH_VALUE_BYTES] at *
      rcases hfull with hentries | ⟨-, hbytes⟩ | hall
      · omega
      · omega
      · obtain rfl : later = [] := by simpa [hall] using hsplit
        cases rest
        omega

-- With no values to hold on to, every batch but the last is full of entries.
theorem Takes.keys_only (h : Takes true xs n) : n = (xs.length + 255) / batchEntries := by
  induction h with
  | nil => rfl
  | @batch x xs n rest ih =>
      rw [gathered_keys_only] at ih
      simp only [batchEntries, List.length_drop, List.length_take, List.length_cons] at ih ⊢
      omega

theorem BatchesFit.takes (h : BatchesFit keysOnly xs) : ∃ n, Takes keysOnly xs n := by
  induction h with
  | nil => exact ⟨0, .nil⟩
  | @batch xs hshort hrest ih =>
      obtain ⟨n, hn⟩ := ih
      cases xs with
      | nil => exact ⟨0, .nil⟩
      | cons x xs => exact ⟨n + 1, .batch hn⟩

end Batches

namespace Iter

variable {σ : Type} [EntrySource σ] {it : Iter σ} {Cut : σ → Prop} {current : Option Item}
  {x : Item} {xs : List Item} {n : Nat}

-- How many batches are still to be asked for, the last of them empty: none once the walk is
-- over, and else those that the batch at hand leaves.
def Due (it : Iter σ) (xs : List Item) (n : Nat) : Prop :=
  if it.done then n = 0
  else ∃ m, Takes it.keysOnly (xs.drop (it.ents.length - (it.pos + 1))) m ∧ n = m + 1

theorem refill_due (hlive : it.Live) (hdone : it.done = false)
    (hawaits : Awaits Cut none (x :: xs) it.i)
    (hshort : (key_frame (gathered it.keysOnly batchEntries 0 (x :: xs))).length < 2 ^ 31)
    (h : Takes it.keysOnly (x :: xs) n) : it.refill.2.Due xs n := by
  rcases refill_more hlive hawaits with ⟨hlong, -⟩ | ⟨-, i, -, hrefill⟩
  · exact absurd (framable_of_short hshort) hlong
  · cases h with
    | @batch _ _ m rest =>
        obtain ⟨y, ys, htaken⟩ := List.exists_cons_of_ne_nil (batch_ne_nil it.keysOnly x xs)
        rw [hrefill, load_short hshort]
        simp only [Due, hdone, Bool.false_eq_true, if_false, length_offsets]
        refine ⟨m, ?_, rfl⟩
        rw [htaken] at rest ⊢
        exact rest

-- A move to the next entry.
theorem Ready.due_next (hlive : it.Live) (h : Ready Cut none current (x :: xs) it)
    (hdue : it.Due (x :: xs) n) : ∃ m, it.Next.2.Due xs m ∧ n = it.refills + m := by
  generalize hlist : x :: xs = list at h hdue
  cases h with
  | ended => simp at hlist
  | awaiting hents hdone hawaits hfit =>
      subst hlist
      simp only [Due, hdone, hents, Bool.false_eq_true, if_false, List.length_nil, Nat.zero_sub,
        List.drop_zero] at hdue
      obtain ⟨m, htakes, rfl⟩ := hdue
      rw [Next_refill hlive (by simp [hents]) hdone]
      refine ⟨m, refill_due hlive hdone hawaits hfit.head htakes, ?_⟩
      simp [refills, hlive.not_closed, hents, hdone, Nat.add_comm]
  | @within taken later _ y hloaded hx hfit =>
      have hlength : it.ents.length = taken.length := by rw [hloaded.ents, length_offsets]
      have hdone := hloaded.not_done
      simp only [Due, hdone, Bool.false_eq_true, if_false] at hdue
      obtain ⟨m, htakes, rfl⟩ := hdue
      by_cases hheld : it.pos + 1 < it.ents.length
      · rw [Next_held hlive hheld]
        refine ⟨m + 1, ?_, by simp [refills, hlive.not_closed, hheld]⟩
        simp only [Due, hdone, Bool.false_eq_true, if_false]
        refine ⟨m, ?_, rfl⟩
        rw [← hlist] at htakes
        obtain ⟨k, hk⟩ := Nat.exists_eq_add_of_lt hheld
        rw [show it.ents.length - (it.pos + 1) = k + 1 by omega, List.drop_succ_cons] at htakes
        rwa [show it.ents.length - (it.pos + 1 + 1) = k by omega]
      · have hnone : taken.drop (it.pos + 1) = [] :=
          List.drop_eq_nil_iff.mpr (hlength ▸ not_lt.mp hheld)
        rw [hnone, List.nil_append] at hlist htakes
        subst hlist
        rw [show it.ents.length - (it.pos + 1) = 0 by omega, List.drop_zero] at htakes
        rw [Next_refill hlive (not_lt.mp hheld) hdone]
        refine ⟨m, refill_due hlive hdone (awaits_of_between hloaded.handed.between) hfit.head
          htakes, ?_⟩
        simp [refills, hlive.not_closed, hheld, hdone, Nat.add_comm]

-- The move that ends the walk.
theorem Ready.due_end (hlive : it.Live) (h : Ready Cut none current [] it)
    (hdue : it.Due [] n) : n = it.refills := by
  cases hdone : it.done with
  | true =>
      simp only [Due, hdone, if_true] at hdue
      simp only [refills, hdone, if_true, ite_self, hdue]
  | false =>
      simp only [Due, hdone, List.drop_nil, Bool.false_eq_true, if_false] at hdue
      obtain ⟨m, htakes, rfl⟩ := hdue
      cases htakes
      have hout : ¬it.pos + 1 < it.ents.length := by
        generalize hlist : ([] : List Item) = list at h
        cases h with
        | awaiting hents => simp [hents]
        | ended hents => simp [hents]
        | @within taken later _ y hloaded hx hfit =>
            have hnone : taken.length ≤ it.pos + 1 :=
              List.drop_eq_nil_iff.mp (List.append_eq_nil_iff.mp hlist.symm).1
            rw [hloaded.ents, length_offsets]
            omega
      simp [refills, hlive.not_closed, hout, hdone]

-- From anywhere in a walk, the loop visits what is left of it.
theorem Ready.scan {ρ : Type} (visit : ρ → Option Bytes → Option Bytes → ρ) (hlive : it.Live)
    (h : Ready Cut none current xs it) (hvalues : ValuesFit it.keysOnly xs) (hdue : it.Due xs n)
    {rounds : Nat} (hrounds : xs.length < rounds) (result : ρ) :
    it.scan visit rounds result = some
      ⟨.ok none, xs.foldl (fun result x => visit result (some x.key) (lent it.keysOnly x)) result,
        n⟩ := by
  induction xs generalizing it current n rounds result with
  | nil =>
      obtain ⟨rounds, rfl⟩ := Nat.exists_eq_add_of_lt hrounds
      have harrives : it.Next.1 = .ok (false, none) := (Next_arrives (by simp) hlive h).1
      rcases hnext : it.Next with ⟨answer, next⟩
      rw [hnext] at harrives
      obtain rfl : answer = _ := harrives
      simp only [Iter.scan, hnext, h.due_end hlive hdue, List.foldl_nil]
  | cons x xs ih =>
      obtain ⟨rounds, rfl⟩ := Nat.exists_eq_succ_of_ne_zero (Nat.ne_zero_of_lt hrounds)
      obtain ⟨hresult, hready⟩ := Next_arrives (by simp) hlive h
      obtain ⟨m, hdue', rfl⟩ := h.due_next hlive hdue
      have hlive' := hlive.Next
      have hkeysOnly := (Next_frame it).2
      rcases hnext : it.Next with ⟨answer, next⟩
      rw [hnext] at hresult hready hdue' hlive' hkeysOnly
      obtain rfl : answer = _ := hresult
      simp only at hready hdue' hlive' hkeysOnly
      rw [← hkeysOnly] at hvalues
      obtain ⟨hvalue, hrest⟩ := hvalues.cons
      obtain ⟨hkey, hread⟩ := hready.reads (by rintro _ ⟨⟩; exact hvalue)
      have hscan := ih hlive' hready hrest hdue' (Nat.lt_of_succ_lt_succ hrounds)
        (visit result (some x.key) (lent next.keysOnly x))
      rw [hkeysOnly] at hread hscan
      simp only [Iter.scan, hnext, hkey, hread, Option.map_some, Option.bind_some, hscan,
        List.foldl_cons]

end Iter

-- What the loop makes of the entries of a range.
def visited {ρ : Type} (visit : ρ → Option Bytes → Option Bytes → ρ) (keysOnly : Bool)
    (list : List Item) (result : ρ) : ρ :=
  list.foldl (fun result x => visit result (some x.key) (lent keysOnly x)) result

-- Over any source that walks the range.
theorem scan_walks {σ : Type} [EntrySource σ] {LiveSource Cut : σ → Prop} {opts : IterOptions}
    {list : List Item} {it : Iter σ} (walks : EntrySource.Walks opts.bounds list False LiveSource Cut)
    (hopened : it.Opened opts) (hsource : LiveSource it.i.source)
    (hmeasurable : Measurable opts.KeysOnly list) :
    ∃ n, Takes opts.KeysOnly list n ∧
      ∀ {ρ : Type} (visit : ρ → Option Bytes → Option Bytes → ρ) (result : ρ) (rounds : Nat),
        list.length < rounds → it.Reset.scan visit rounds result =
          some ⟨.ok none, visited visit opts.KeysOnly list result, n + 1⟩ := by
  have hlive : it.Reset.Live := ⟨hopened.live.not_closed, hopened.live.keys_only⟩
  have hkeysOnly : it.Reset.keysOnly = opts.KeysOnly := hopened.keysOnly
  have hready : Iter.Ready Cut none none list it.Reset :=
    (Iter.follows_start walks hlive hkeysOnly hopened.bounds hsource (hmeasurable.batches 0) rfl rfl rfl rfl
      rfl).ready
  obtain ⟨n, htakes⟩ := (hmeasurable.batches 0).takes
  refine ⟨n, htakes, fun visit result rounds hrounds => ?_⟩
  rw [visited, ← hkeysOnly]
  refine hready.scan visit hlive (hkeysOnly ▸ hmeasurable.values) ⟨n, ?_, rfl⟩ hrounds result
  exact hkeysOnly.symm ▸ htakes

section Over

variable {C T S : Type} [OwnedSnapshotIter C] [TxnScanStream S] [OwnedTransaction T S]
  {entries : C → List Item} {merged : T → List Item} {opts : IterOptions} {view : List Item}
  {it : Iter (Source C T S)}

-- A loop over an iterator that is new, or that has been reset, comes to its end, with every
-- entry of the range in order. It asks for one batch for each 256 of them and for each MiB of
-- their values, and for two more at the most; with keys alone, for as many as hold 256 keys
-- each, and for the empty one.
theorem scan_complete (cursorLaws : CursorLaws entries False)
    (txnLaws : TransactionLaws merged False) (h : it.Over entries merged opts view)
    (hmeasurable : Measurable opts.KeysOnly (opts.range view)) :
    let list := opts.range view
    ∃ refills,
      (∀ {ρ : Type} (visit : ρ → Option Bytes → Option Bytes → ρ) (result : ρ) (rounds : Nat),
        list.length < rounds → it.Reset.scan visit rounds result =
          some ⟨.ok none, visited visit opts.KeysOnly list result, refills⟩) ∧
      refills ≤ list.length / 256 + valueBytes list / 2 ^ 20 + 2 ∧
      (opts.KeysOnly = true → refills = (list.length + 255) / 256 + 1) ∧
      (it.Fresh opts → it.Reset = it) := by
  intro list
  have hwalks := (Source.snapshot_walks (T := T) (S := S) cursorLaws opts.bounds view).or
    (Source.txn_walks (C := C) txnLaws opts.bounds view)
  rw [← range_eq_listing] at hwalks
  obtain ⟨n, htakes, hscan⟩ := scan_walks hwalks h.opened h.source hmeasurable
  refine ⟨n + 1, hscan, Nat.succ_le_succ htakes.le, fun hkeys => congrArg Nat.succ ?_,
    fun hfresh => hfresh.reset⟩
  rw [hkeys] at htakes
  exact htakes.keys_only

end Over

theorem scan_complete_stopped :
    let contents := Contents.ofPairs [([1], [10]), ([1, 7], []), ([2], [20])]
    let opts : IterOptions := ⟨[1], [], [], true, true⟩
    let list := opts.range contents.entries
    ∃ refills,
      (∀ {ρ : Type} (visit : ρ → Option Bytes → Option Bytes → ρ) (result : ρ) (rounds : Nat),
        list.length < rounds → (Iter.stopped contents opts).Reset.scan visit rounds result =
          some ⟨.ok none, visited visit opts.KeysOnly list result, refills⟩) ∧
      refills ≤ list.length / 256 + valueBytes list / 2 ^ 20 + 2 ∧
      (opts.KeysOnly = true → refills = (list.length + 255) / 256 + 1) ∧
      ((Iter.stopped contents opts).Fresh opts →
        (Iter.stopped contents opts).Reset = Iter.stopped contents opts) := by
  intro contents opts list
  have hover : (Iter.stopped contents opts).Over (·.contents.entries)
      (fun t : ListTxn noBad => t.contents.entries) opts contents.entries :=
    ⟨⟨rfl, rfl, rfl⟩, .inl rfl⟩
  exact scan_complete ListCursor.soundLaws ListTxn.soundLaws hover
    (measurable_of_frame (by decide) (by simp [ValuesFit, opts]))

end Regolith.Go
