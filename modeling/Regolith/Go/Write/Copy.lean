import Mathlib.Data.List.Nodup
import Regolith.Go.Iter.Scan
import Regolith.Go.Write.Theorems

-- A range of one store, taken with an iterator, put into another with one batch.
namespace Regolith.Go

open Ffi Regolith.Frame

-- The loop's body: `b.Set(it.Key(), value)`.
def keep (b : WriteBatch) (key value : Option Bytes) : WriteBatch :=
  b.Set (key.getD []) (value.getD [])

-- The loop over an iterator, and `DB.Write` of what it has filled, unless it went wrong.
def copy {σ St : Type} [EntrySource σ] [StoreEngine St] (rounds : Nat) (it : Iter σ) (db : DB St) :
    Option (Except Crash (Option GoError) × DB St) :=
  (it.scan keep rounds .zero).map fun scanned =>
    match scanned.ended with
    | .ok none => (.ok (db.Write (some scanned.result)).1, (db.Write (some scanned.result)).2.1)
    | ended => (ended, db)

-- The ops that write these entries.
def puts (list : List Item) : List RawOp := list.map fun x => .Set x.key x.value

theorem visited_keep (list : List Item) : visited keep false list .zero = batchOf (puts list) := by
  suffices h : ∀ b, visited keep false list b = (puts list).foldl add b from h .zero
  induction list with
  | nil => intro b; rfl
  | cons x list ih =>
    intro b
    have hvalue : (lent false x).getD [] = x.value := by
      by_cases hempty : x.value = []
      · simp [lent, hempty]
      · simp [lent, hempty]
    simp only [visited, puts, List.foldl_cons, List.map_cons, keep, hvalue, Option.getD_some] at ih ⊢
    exact ih _

section Puts

variable {list : List Item} {store : StoreMap} {x : Item} {key : Bytes}

theorem applyOps_puts_of_ne (h : ∀ x ∈ list, x.key ≠ key) :
    applyOps store (puts list) key = store key := by
  induction list generalizing store with
  | nil => rfl
  | cons y list ih =>
    rw [List.forall_mem_cons] at h
    refine (ih h.2).trans ?_
    exact Function.update_of_ne (Ne.symm h.1) _ _

-- Every entry is there after its op, as no other has its key.
theorem applyOps_puts_of_mem (hnodup : (list.map (·.key)).Nodup) (hx : x ∈ list) :
    applyOps store (puts list) x.key = some x.value := by
  induction list generalizing store with
  | nil => simp at hx
  | cons y list ih =>
    rw [List.map_cons, List.nodup_cons] at hnodup
    rcases List.mem_cons.mp hx with rfl | hx
    · have hne : ∀ z ∈ list, z.key ≠ x.key := fun z hz heq =>
        hnodup.1 (heq ▸ List.mem_map_of_mem hz)
      refine (applyOps_puts_of_ne hne).trans ?_
      exact Function.update_self _ _ _
    · exact ih hnodup.2 hx

end Puts

-- A store that keeps a map, and whose snapshots show what is in it.
structure StoreLaws (St : Type) {C : Type} [StoreEngine St] [SnapshotStore St C]
    [OwnedSnapshotIter C] (entries : C → List Item) : Prop where
  cursor : CursorLaws entries False
  writes : WritesAtomically St
  shows : ∀ (store : St) (key value : Bytes),
    ⟨key, value⟩ ∈ entries (SnapshotStore.into_owned_iter store) ↔
      StoreEngine.contents store key = some value

section Copy

variable {St C : Type} [StoreEngine St] [SnapshotStore St C] [OwnedSnapshotIter C]
  {entries : C → List Item} {opts : IterOptions} {store : St}

-- What an iterator of the store has before it.
def listed (entries : C → List Item) (opts : IterOptions) (store : St) : List Item :=
  opts.range (entries (SnapshotStore.into_owned_iter store))

theorem mem_listed (laws : StoreLaws St entries) (x : Item) :
    x ∈ listed entries opts store ↔
      opts.includes x.key ∧ StoreEngine.contents store x.key = some x.value := by
  rw [← laws.shows, listed, IterOptions.range, List.mem_filter, decide_eq_true_iff, and_comm]
  split
  · rw [List.mem_reverse]
  · rfl

theorem listed_sorted (laws : StoreLaws St entries) :
    (listed entries opts store).Pairwise opts.bounds.before := by
  rw [listed, range_eq_listing]
  exact opts.bounds.listing_sorted (laws.cursor.ascending _)

theorem keys_listed (laws : StoreLaws St entries) :
    ((listed entries opts store).map (·.key)).Nodup :=
  Bounds.keys_nodup (listed_sorted laws)

-- The map after the ops that write what is listed.
theorem applyOps_listed (laws : StoreLaws St entries) (target : StoreMap) (key : Bytes) :
    applyOps target (puts (listed entries opts store)) key =
      if opts.includes key then (StoreEngine.contents store key).or (target key)
      else target key := by
  by_cases hmem : ∃ x ∈ listed entries opts store, x.key = key
  · obtain ⟨x, hx, rfl⟩ := hmem
    obtain ⟨hincludes, hcontents⟩ := (mem_listed laws x).mp hx
    rw [applyOps_puts_of_mem (keys_listed laws) hx, if_pos hincludes, hcontents, Option.some_or]
  · rw [applyOps_puts_of_ne fun x hx heq => hmem ⟨x, hx, heq⟩]
    split_ifs with hincludes
    · have hnone : StoreEngine.contents store key = none := by
        by_contra hsome
        obtain ⟨value, hvalue⟩ := Option.ne_none_iff_exists'.mp hsome
        exact hmem ⟨⟨key, value⟩, (mem_listed laws _).mpr ⟨hincludes, hvalue⟩, rfl⟩
      rw [hnone, Option.none_or]
    · rfl

end Copy

section Outcome

variable {St : Type} [StoreEngine St] {store after : St} {ops : List RawOp} {err : Option GoError}

-- A write succeeds if the record has room for its ops and the engine takes them.
theorem WriteOutcome.ok_iff (h : WriteOutcome store ops err after)
    (hlen : (packed ops).length < 2 ^ 63) :
    err = none ↔ record_len ops ≤ 2 ^ 30 ∧ (StoreEngine.write store ⟨ops⟩).1 = .ok () := by
  have hfits : decode (packed ops) = .ok ⟨ops⟩ ↔ record_len ops ≤ 2 ^ 30 := by
    simpa using decode_eq_ok_iff hlen ops
  cases h with
  | rejected hfault =>
    rw [hfault] at hfits
    simpa using fun hrecord => absurd (hfits.mpr hrecord) (by simp)
  | failed hdecode hfailed => simp [hfailed]
  | applied hdecode hok => exact ⟨fun _ => ⟨hfits.mp hdecode, hok⟩, fun _ => rfl⟩

theorem write_ops (laws : WritesAtomically St) (store : St) (ops : List RawOp)
    (hlen : (packed ops).length < 2 ^ 63) :
    ∃ err after, DB.Write ⟨some store, false⟩ (some (batchOf ops)) =
        (err, ⟨some after, false⟩, some (batchOf ops)) ∧
      (err = none ↔ ops = [] ∨
        record_len ops ≤ 2 ^ 30 ∧ (StoreEngine.write store ⟨ops⟩).1 = .ok ()) ∧
      (err = none → StoreEngine.contents after = applyOps (StoreEngine.contents store) ops) ∧
      (err ≠ none → StoreEngine.contents after = StoreEngine.contents store) := by
  by_cases hempty : ops = []
  · subst hempty
    exact ⟨none, store, write_empty _ rfl, by simp, fun _ => rfl, fun _ => rfl⟩
  · obtain ⟨err, after, hwrite, houtcome⟩ := write_outcome store ops hempty hlen
    refine ⟨err, after, hwrite, ?_, fun hnone => ?_, fun hsome => ?_⟩
    · rw [houtcome.ok_iff hlen, or_iff_right hempty]
    · exact ((houtcome.contents laws).resolve_right fun hfailed => hfailed.1 hnone).2
    · exact ((houtcome.contents laws).resolve_left fun hok => hsome hok.1).2

end Outcome

-- A copy comes to an end. It succeeds if the range is empty, or fits one record that the engine
-- of the target takes; then the target has the range of the source laid over what it had, and
-- an empty one has just that range. Else the target is as it was.
theorem copy_exact {St C St' C' T S : Type} [StoreEngine St] [SnapshotStore St C]
    [OwnedSnapshotIter C] [StoreEngine St'] [SnapshotStore St' C'] [OwnedSnapshotIter C']
    [TxnScanStream S] [OwnedTransaction T S] {entries : C → List Item} {entries' : C' → List Item}
    (laws : StoreLaws St entries) (laws' : StoreLaws St' entries') (source : St) (target : St')
    (opts : IterOptions) (hvalues : opts.KeysOnly = false)
    (hmeasurable : Measurable opts.KeysOnly (listed entries opts source))
    (hlen : (packed (puts (listed entries opts source))).length < 2 ^ 63) :
    let list := listed entries opts source
    ∃ it, DB.NewIter T S ⟨some source, false⟩ opts = .ok it ∧
      ∀ rounds, list.length < rounds →
        ∃ err after, copy rounds it ⟨some target, false⟩ = some (.ok err, ⟨some after, false⟩) ∧
          (err = none ↔ list = [] ∨
            record_len (puts list) ≤ 2 ^ 30 ∧
              (StoreEngine.write target ⟨puts list⟩).1 = .ok ()) ∧
          (err = none → ∀ key, StoreEngine.contents after key =
            if opts.includes key then
              (StoreEngine.contents source key).or (StoreEngine.contents target key)
            else StoreEngine.contents target key) ∧
          (err = none → (∀ key, StoreEngine.contents target key = none) →
            listed entries' opts after = list) ∧
          (err ≠ none → StoreEngine.contents after = StoreEngine.contents target) := by
  intro list
  let cursor : C := SnapshotStore.into_owned_iter source
  let it : Iter (Source C T S) := .opened (.over_snapshot T S cursor opts.bounds) opts
  have hnew : DB.NewIter T S ⟨some source, false⟩ opts = .ok it := rfl
  have hwalks := Source.snapshot_walks (T := T) (S := S) laws.cursor opts.bounds (entries cursor)
  rw [← range_eq_listing] at hwalks
  have hopened : it.Opened opts := ⟨rfl, rfl, rfl⟩
  obtain ⟨n, -, hscan⟩ := scan_walks hwalks hopened rfl hmeasurable
  have hreset : it.Reset = it := Iter.Fresh.reset (.snapshot _ hnew)
  refine ⟨it, hnew, fun rounds hrounds => ?_⟩
  have hfilled : it.scan keep rounds .zero = some ⟨.ok none, batchOf (puts list), n + 1⟩ := by
    have hvisited := hscan keep .zero rounds hrounds
    rw [hreset, hvalues] at hvisited
    rw [hvisited, ← visited_keep]
    rfl
  obtain ⟨err, after, hwrite, hok, happlied, hkept⟩ := write_ops laws'.writes target (puts list) hlen
  have hcontents : err = none → ∀ key, StoreEngine.contents after key =
      if opts.includes key then
        (StoreEngine.contents source key).or (StoreEngine.contents target key)
      else StoreEngine.contents target key := by
    intro hnone key
    rw [happlied hnone]
    exact applyOps_listed laws _ key
  refine ⟨err, after, ?_, ?_, hcontents, fun hnone hempty => ?_, hkept⟩
  · rw [copy, hfilled, Option.map_some]
    simp only [hwrite]
  · rw [hok, puts, List.map_eq_nil_iff]
  · -- Two listings in one order, of the same entries.
    have hmem : ∀ x, x ∈ listed entries' opts after ↔ x ∈ list := by
      intro x
      rw [mem_listed laws', mem_listed laws, hcontents hnone, hempty, Option.or_none]
      exact and_congr_right fun hincludes => by rw [if_pos hincludes]
    have hperm := (List.perm_ext_iff_of_nodup (List.Nodup.of_map _ (keys_listed laws'))
      (List.Nodup.of_map _ (keys_listed laws))).mpr hmem
    exact hperm.eq_of_pairwise (fun x y _ _ hxy hyx => absurd hyx (Bounds.before_asymm x y hxy))
      (listed_sorted laws') (listed_sorted laws)

section Example

def Contents.apply (store : Contents) : RawOp → Contents
  | .Set key value => store.insert ⟨key, value⟩
  | .Delete key => store.erase key

-- A list of entries as a store that takes every batch.
instance : StoreEngine Contents where
  write store batch := (.ok (), batch.ops.foldl Contents.apply store)
  contents store key := (store.entries.find? (·.key = key)).map (·.value)

theorem contents_shows (store : Contents) (key value : Bytes) :
    ⟨key, value⟩ ∈ store.entries ↔ StoreEngine.contents store key = some value := by
  change _ ↔ (store.entries.find? (·.key = key)).map (·.value) = some value
  have hnodup : (store.entries.map (·.key)).Nodup :=
    List.pairwise_map.mpr (store.ascending.imp fun h => h.ne)
  constructor
  · intro hmem
    have hsome : (store.entries.find? (·.key = key)).isSome := by
      rw [List.find?_isSome]
      exact ⟨_, hmem, by simp⟩
    obtain ⟨x, hx⟩ := Option.isSome_iff_exists.mp hsome
    have hkey : x.key = key := by simpa using List.find?_some hx
    have hsame := List.inj_on_of_nodup_map hnodup (List.mem_of_find?_eq_some hx) hmem hkey
    rw [hx, hsame]
    rfl
  · intro h
    obtain ⟨x, hx, rfl⟩ := Option.map_eq_some_iff.mp h
    have hkey : x.key = key := by simpa using List.find?_some hx
    rw [← hkey]
    exact List.mem_of_find?_eq_some hx

theorem mem_insert (store : Contents) (x y : Item) :
    y ∈ (store.insert x).entries ↔ y = x ∨ y ∈ store.entries ∧ y.key ≠ x.key := by
  simp only [Contents.insert, List.mem_append, List.mem_cons, List.mem_filter, decide_eq_true_eq]
  rw [show y.key ≠ x.key ↔ y.key < x.key ∨ x.key < y.key from ne_iff_lt_or_gt]
  tauto

theorem contents_apply (store : Contents) (op : RawOp) :
    StoreEngine.contents (Contents.apply store op) = applyOp (StoreEngine.contents store) op := by
  refine funext fun key => Option.ext fun value => ?_
  rw [← contents_shows, applyOp, Function.update_apply]
  cases op with
  | Set key' value' =>
    rw [Contents.apply, mem_insert]
    by_cases hkey : key = key'
    · subst hkey
      simp [op_key, op_value, eq_comm]
    · simp [op_key, hkey, contents_shows]
  | Delete key' =>
    by_cases hkey : key = key'
    · subst hkey
      simp [op_key, op_value, Contents.apply, Contents.erase]
    · simp [op_key, hkey, Contents.apply, Contents.erase, contents_shows]

theorem contents_writes : WritesAtomically Contents := by
  rintro store ⟨ops⟩
  refine .inl ⟨rfl, ?_⟩
  induction ops generalizing store with
  | nil => rfl
  | cons op ops ih => exact (ih _).trans (congrArg (applyOps · ops) (contents_apply store op))

theorem contents_laws :
    StoreLaws Contents fun c : ListCursor noBad => c.contents.entries :=
  ⟨ListCursor.soundLaws, contents_writes, contents_shows⟩

end Example

theorem copy_exact_prefix :
    let source := Contents.ofPairs [([1], [10]), ([1, 7], []), ([2], [20])]
    let opts : IterOptions := ⟨[1], [], [], true, false⟩
    let entries := fun c : ListCursor noBad => c.contents.entries
    let list := listed entries opts source
    ∃ it, DB.NewIter (ListTxn noBad) (ListStream noBad) ⟨some source, false⟩ opts = .ok it ∧
      ∀ rounds, list.length < rounds →
        ∃ err after, copy rounds it ⟨some Contents.empty, false⟩ =
            some (.ok err, ⟨some after, false⟩) ∧
          (err = none ↔ list = [] ∨
            record_len (puts list) ≤ 2 ^ 30 ∧
              (StoreEngine.write Contents.empty ⟨puts list⟩).1 = .ok ()) ∧
          (err = none → ∀ key, StoreEngine.contents after key =
            if opts.includes key then
              (StoreEngine.contents source key).or (StoreEngine.contents Contents.empty key)
            else StoreEngine.contents Contents.empty key) ∧
          (err = none → (∀ key, StoreEngine.contents Contents.empty key = none) →
            listed entries opts after = list) ∧
          (err ≠ none → StoreEngine.contents after = StoreEngine.contents Contents.empty) := by
  intro source opts entries list
  refine copy_exact contents_laws contents_laws source Contents.empty opts rfl ?_ ?_
  · exact measurable_of_frame (by decide) (by unfold ValuesFit; decide)
  · decide

end Regolith.Go
