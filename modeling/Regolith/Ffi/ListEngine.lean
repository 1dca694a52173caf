import Regolith.Ffi.Iter
import Regolith.Ffi.Laws

-- An engine that keeps the laws: the entries are a list. `bad` keys make reads fail,
-- and operations of a transaction panic; with none of them nothing fails.
namespace Regolith.Ffi

structure Contents where
  entries : List Item
  ascending : Ascending entries

namespace Contents

def empty : Contents := ⟨[], List.Pairwise.nil⟩

def erase (contents : Contents) (key : Bytes) : Contents :=
  ⟨contents.entries.filter (·.key ≠ key), contents.ascending.filter _⟩

def insert (contents : Contents) (x : Item) : Contents where
  entries :=
    contents.entries.filter (·.key < x.key) ++ x :: contents.entries.filter (x.key < ·.key)
  ascending := by
    have hbelow : ∀ y ∈ contents.entries.filter (·.key < x.key), y.key < x.key := by
      intro y hy
      simpa using (List.mem_filter.mp hy).2
    have habove : ∀ y ∈ contents.entries.filter (x.key < ·.key), x.key < y.key := by
      intro y hy
      simpa using (List.mem_filter.mp hy).2
    refine List.pairwise_append.mpr ⟨contents.ascending.filter _,
      List.pairwise_cons.mpr ⟨habove, contents.ascending.filter _⟩, ?_⟩
    intro y hy z hz
    rcases List.mem_cons.mp hz with rfl | hz
    · exact hbelow y hy
    · exact (hbelow y hy).trans (habove z hz)

def ofPairs (pairs : List (Bytes × Bytes)) : Contents :=
  pairs.foldl (fun contents pair => contents.insert ⟨pair.1, pair.2⟩) empty

end Contents

variable {bad : Bytes → Bool}

section Cursor

structure ListCursor (bad : Bytes → Bool) where
  contents : Contents
  place : Except EngineError (Option Item)

namespace ListCursor

def start (bad : Bytes → Bool) (contents : Contents) : ListCursor bad := ⟨contents, .ok none⟩

def read (bad : Bytes → Bool) (found : Option Item) : Except EngineError (Option Item) :=
  match found with
  | none => .ok none
  | some x => if bad x.key then .error (.Other "bad block") else .ok (some x)

def goto (c : ListCursor bad) (found : Option Item) : ListCursor bad :=
  { c with place := read bad found }

def current (c : ListCursor bad) : Option Item :=
  match c.place with
  | .ok found => found
  | .error _ => none

instance : OwnedSnapshotIter (ListCursor bad) where
  seek c target := c.goto (c.contents.entries.find? (target ≤ ·.key))
  seek_for_prev c target := c.goto (c.contents.entries.reverse.find? (·.key ≤ target))
  seek_to_first c := c.goto c.contents.entries.head?
  seek_to_last c := c.goto c.contents.entries.getLast?
  next c := c.goto (c.current.bind fun x => c.contents.entries.find? (x.key < ·.key))
  prev c := c.goto (c.current.bind fun x => c.contents.entries.reverse.find? (·.key < x.key))
  valid c := c.current.isSome
  key c := c.current.map (·.key)
  value c := c.current.map (·.value)
  value_slice c := c.current.map (·.value)
  status c :=
    match c.place with
    | .ok _ => .ok ()
    | .error error => .error error

theorem standsOn_of_place {c : ListCursor bad} {found : Option Item} (h : c.place = .ok found) :
    StandsOn c found := by
  have hcurrent : c.current = found := by simp [current, h]
  constructor <;> simp [OwnedSnapshotIter.valid, OwnedSnapshotIter.key, OwnedSnapshotIter.value,
    OwnedSnapshotIter.value_slice, OwnedSnapshotIter.status, hcurrent, h]

theorem current_of_standsOn {c : ListCursor bad} {x : Item} (h : StandsOn c (some x)) :
    c.current = some x := by
  have hkey : c.current.map (·.key) = some x.key := h.key
  have hvalue : c.current.map (·.value) = some x.value := h.value
  cases hcurrent : c.current with
  | none => simp [hcurrent] at hkey
  | some y =>
      obtain ⟨key, value⟩ := y
      simp only [hcurrent, Option.map_some, Option.some.injEq] at hkey hvalue
      simp [hkey, hvalue]

theorem goto_movesTo (c : ListCursor bad) (found : Option Item) :
    MovesTo (∃ key, bad key) (c.goto found) found := by
  cases found with
  | none => exact .inl (standsOn_of_place rfl)
  | some x =>
      cases hbad : bad x.key with
      | false => exact .inl (standsOn_of_place (by simp [goto, read, hbad]))
      | true =>
          have hplace : (c.goto (some x)).place = .error (.Other "bad block") := by
            simp [goto, read, hbad]
          refine .inr ⟨⟨x.key, hbad⟩, ?_⟩
          constructor <;> simp [OwnedSnapshotIter.valid, OwnedSnapshotIter.key,
            OwnedSnapshotIter.status, current, hplace]

theorem laws : CursorLaws (fun c : ListCursor bad => c.contents.entries) (∃ key, bad key) where
  ascending c := c.contents.ascending
  entries_seek _ _ := rfl
  entries_seek_for_prev _ _ := rfl
  entries_seek_to_first _ := rfl
  entries_seek_to_last _ := rfl
  entries_next _ := rfl
  entries_prev _ := rfl
  seek c _ := goto_movesTo c _
  seek_for_prev c _ := goto_movesTo c _
  seek_to_first c := goto_movesTo c _
  seek_to_last c := goto_movesTo c _
  next c x h := by
    have hmoves := goto_movesTo c (c.contents.entries.find? (x.key < ·.key))
    simpa [OwnedSnapshotIter.next, current_of_standsOn h] using hmoves
  prev c x h := by
    have hmoves := goto_movesTo c (c.contents.entries.reverse.find? (·.key < x.key))
    simpa [OwnedSnapshotIter.prev, current_of_standsOn h] using hmoves

end ListCursor

end Cursor

section Transaction

structure ListStream (bad : Bytes → Bool) where
  rest : List Item

instance : TxnScanStream (ListStream bad) where
  next s :=
    match s.rest with
    | [] => (none, s)
    | x :: xs => if bad x.key then (none, s) else (some (x.key, x.value), ⟨xs⟩)
  status s := if s.rest = [] then .ok () else .error (.Other "bad block")

structure ListTxn (bad : Bytes → Bool) where
  contents : Contents

instance : OwnedTransaction (ListTxn bad) (ListStream bad) where
  get_slice t key :=
    if bad key then (.error (.text "bad key"), t)
    else (.ok (.ok ((t.contents.entries.find? (·.key = key)).map (·.value))), t)
  put t key value :=
    if bad key then (.error (.text "bad key"), ⟨t.contents.erase key⟩)
    else (.ok (.ok ()), ⟨t.contents.insert ⟨key, value⟩⟩)
  delete t key :=
    if bad key then (.error (.text "bad key"), t) else (.ok (.ok ()), ⟨t.contents.erase key⟩)
  scan_stream_in t start end_ direction :=
    (.ok ⟨(scan_bounds start end_ direction).listing t.contents.entries⟩, t)
  commit t := (.ok (.ok ()), t)
  rollback t := t

namespace ListStream

theorem spent_of_next {s : ListStream bad} {status : Except EngineError Unit}
    (hnext : TxnScanStream.next s = (none, s)) (hstatus : TxnScanStream.status s = status) :
    Spent status s := by
  have hfix (n : Nat) : (fun s : ListStream bad => (TxnScanStream.next s).2)^[n] s = s :=
    Function.iterate_fixed (congrArg Prod.snd hnext) n
  intro n
  rw [hfix, hfix]
  exact ⟨congrArg Prod.fst hnext, hstatus⟩

theorem streamRuns (xs : List Item) : StreamRuns (∃ key, bad key) xs (⟨xs⟩ : ListStream bad) := by
  induction xs with
  | nil => exact .inl (spent_of_next rfl rfl)
  | cons x xs ih =>
      cases hbad : bad x.key with
      | true =>
          refine .inr ⟨⟨x.key, hbad⟩, [], .Other "bad block", List.nil_prefix, ?_⟩
          exact spent_of_next (by simp [TxnScanStream.next, hbad]) rfl
      | false =>
          have hnext : TxnScanStream.next (⟨x :: xs⟩ : ListStream bad) =
              (some (x.key, x.value), ⟨xs⟩) := by simp [TxnScanStream.next, hbad]
          rcases ih with h | ⟨hfaulty, front, error, hfront, h⟩
          · refine .inl ⟨?_, ?_⟩
            · rw [hnext]
            · rwa [hnext]
          · refine .inr ⟨hfaulty, x :: front, error,
              List.cons_prefix_cons.mpr ⟨rfl, hfront⟩, ?_, ?_⟩
            · rw [hnext]
            · rwa [hnext]

-- A stream up to its first bad key.
theorem fails {front back : List Item} {x : Item} (hgood : ∀ y ∈ front, bad y.key = false)
    (hbad : bad x.key) :
    StreamYields (.error (.Other "bad block")) front (⟨front ++ x :: back⟩ : ListStream bad) := by
  induction front with
  | nil => exact spent_of_next (by simp [TxnScanStream.next, hbad]) rfl
  | cons y front ih =>
      simp only [List.forall_mem_cons] at hgood
      have hnext : TxnScanStream.next (⟨y :: front ++ x :: back⟩ : ListStream bad) =
          (some (y.key, y.value), ⟨front ++ x :: back⟩) := by
        simp [TxnScanStream.next, hgood.1]
      refine ⟨?_, ?_⟩
      · rw [hnext]
      · rw [hnext]
        exact ih hgood.2

end ListStream

theorem ListTxn.laws :
    TransactionLaws (fun t : ListTxn bad => t.contents.entries) (∃ key, bad key) where
  ascending t := t.contents.ascending
  merged_scan _ _ _ _ := rfl
  scan _ _ _ _ := .inl ⟨_, rfl, ListStream.streamRuns _⟩

end Transaction

-- Without bad keys nothing fails.
def noBad (_ : Bytes) : Bool := false

theorem ListCursor.soundLaws :
    CursorLaws (fun c : ListCursor noBad => c.contents.entries) False := by
  have h : CursorLaws (fun c : ListCursor noBad => c.contents.entries) _ := ListCursor.laws
  simpa [noBad] using h

theorem ListTxn.soundLaws :
    TransactionLaws (fun t : ListTxn noBad => t.contents.entries) False := by
  have h : TransactionLaws (fun t : ListTxn noBad => t.contents.entries) _ := ListTxn.laws
  simpa [noBad] using h

-- With a bad key everything may fail.
theorem ListCursor.faultyLaws (h : ∃ key, bad key) :
    CursorLaws (fun c : ListCursor bad => c.contents.entries) True := by
  have hlaws : CursorLaws (fun c : ListCursor bad => c.contents.entries) _ := ListCursor.laws
  rwa [eq_true h] at hlaws

theorem ListTxn.faultyLaws (h : ∃ key, bad key) :
    TransactionLaws (fun t : ListTxn bad => t.contents.entries) True := by
  have hlaws : TransactionLaws (fun t : ListTxn bad => t.contents.entries) _ := ListTxn.laws
  rwa [eq_true h] at hlaws

-- An iterator over a snapshot of a list.
def ListCursor.iter (bad : Bytes → Bool) (pairs : List (Bytes × Bytes)) (b : Bounds) :
    RegolithIter (Source (ListCursor bad) (ListTxn bad) (ListStream bad)) :=
  .over_snapshot _ _ (start bad (.ofPairs pairs)) b

end Regolith.Ffi
