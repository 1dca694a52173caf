import Regolith.Ffi.Laws
import Regolith.Ffi.Walk

-- A snapshot cursor walks the entries of its range.
namespace Regolith.Ffi.Source

open OwnedSnapshotIter EntrySource

variable {C T S : Type} [OwnedSnapshotIter C] [TxnScanStream S] [OwnedTransaction T S]

-- Over a snapshot holding `entries`, wherever the cursor stands.
def OverSnapshot (view : C → List Item) (entries : List Item) : Source C T S → Prop
  | .Snapshot cursor => view cursor = entries
  | .Txn _ _ _ => False

-- A failure has left nothing to stand on, and no way to go on.
def Cut : Source C T S → Prop
  | .Snapshot cursor => Failed cursor
  | .Txn _ stream current =>
      current = none ∧ ∀ s ∈ stream, ∃ error,
        TxnScanStream.status s = .error error ∧ Spent (.error error) s

section Targets

variable {b : Bounds} {key start end_ : Bytes}

theorem start_le_clamp_start (target : Bytes) (h : start ∈ b.start) :
    start ≤ clamp_start b target := by
  have hstart : b.start = some start := h
  simp only [clamp_start, hstart]
  split_ifs with hlt
  · exact le_rfl
  · exact not_lt.mp hlt

-- Above `start`, being at the clamped target is being at the target.
theorem clamp_start_le_iff (target : Bytes) (h : b.above_start key) :
    clamp_start b target ≤ key ↔ target ≤ key := by
  unfold clamp_start
  cases hstart : b.start with
  | none => rfl
  | some start =>
      have hkey : start ≤ key := h start hstart
      simp only
      split_ifs with hlt
      · exact ⟨fun _ => hlt.le.trans hkey, fun _ => hkey⟩
      · rfl

theorem lt_of_above_end_false {target : Bytes} (h : above_end b target = false)
    (hend : end_ ∈ b.end_) : target < end_ := by
  have hsome : b.end_ = some end_ := hend
  simpa [above_end, hsome] using h

theorem lt_of_above_end {target : Bytes} (h : above_end b target = true)
    (hkey : b.below_end key) : key < target := by
  cases hend : b.end_ with
  | none => simp [above_end, hend] at h
  | some end_ =>
      have hle : end_ ≤ target := by simpa [above_end, hend] using h
      exact (hkey end_ hend).trans_le hle

end Targets

variable {view : C → List Item} {faulty : Prop} {b : Bounds} {entries : List Item} {cursor : C}

section Standing

theorem cursor_in_range_of_key {x : Item} (h : StandsOn cursor (some x)) :
    cursor_in_range b cursor = b.contains x.key := by
  simp [cursor_in_range, h.key]

theorem cursor_in_range_none (h : StandsOn cursor none) : cursor_in_range b cursor = false := by
  simp [cursor_in_range, h.key]

theorem cursor_valid_none (h : StandsOn cursor none) : cursor_valid b cursor = .ok false := by
  simp [cursor_valid, h.valid, h.status]

theorem cursor_valid_some {x : Item} (h : StandsOn cursor (some x)) :
    cursor_valid b cursor = .ok (b.contains x.key) := by
  simp [cursor_valid, h.valid, cursor_in_range_of_key h]

theorem cursor_valid_failed (h : Failed cursor) :
    ∃ error, cursor_valid b cursor = fail (.of_error error) := by
  obtain ⟨error, herror⟩ := h.status
  exact ⟨error, by simp [cursor_valid, h.valid, herror]⟩

theorem shows_snapshot {x : Item} (h : StandsOn cursor (some x)) (hin : b.contains x.key) :
    Shows b (some x) (.Snapshot cursor : Source C T S) :=
  ⟨(cursor_in_range_of_key h).trans hin, h.key, fun _ => ⟨h.value, h.value_slice⟩⟩

-- Off the range the cursor does not move any more.
theorem over_snapshot (h : cursor_in_range b cursor = false) (Cut : Source C T S → Prop) :
    (walking b Cut).Over (.Snapshot cursor) := by
  have hstep : step b (.Snapshot cursor : Source C T S) = (.ok false, .Snapshot cursor) := by
    simp [step, h]
  apply Pull.over_of_invariant (· = .Snapshot cursor)
  · rintro _ rfl
    exact h
  · rintro _ rfl
    exact congrArg Prod.fst hstep
  · rintro _ rfl
    exact congrArg Prod.snd hstep
  · rfl

end Standing

section Moves

theorem step_cursor_movesTo (laws : CursorLaws view faulty) {x : Item}
    (h : StandsOn cursor (some x)) :
    MovesTo faulty (step_cursor b cursor)
      ((b.oriented (view cursor)).find? (b.before x ·)) := by
  obtain ⟨start, end_, reverse, keys_only⟩ := b
  cases reverse
  · exact laws.next cursor x h
  · exact laws.prev cursor x h

-- `seek_for_prev` to an exclusive bound, and the step off the bound itself.
theorem seek_below_movesTo (laws : CursorLaws view faulty) (cursor : C) (end_ : Bytes) :
    MovesTo faulty
      (if valid (seek_for_prev cursor end_) && key (seek_for_prev cursor end_) == some end_ then
        prev (seek_for_prev cursor end_) else seek_for_prev cursor end_)
      ((view cursor).reverse.find? (·.key < end_)) := by
  rcases laws.seek_for_prev cursor end_ with hstands | ⟨hfaulty, hfailed⟩
  · cases hfind : (view cursor).reverse.find? (·.key ≤ end_) with
    | none =>
        rw [hfind] at hstands
        have hbelow : (view cursor).reverse.find? (·.key < end_) = none := by
          rw [List.find?_eq_none] at *
          intro x hx
          have := hfind x hx
          simp only [decide_eq_true_eq, not_le, not_lt] at *
          exact this.le
        rw [hbelow]
        simpa [hstands.valid] using hstands.movesTo
    | some x =>
        rw [hfind] at hstands
        by_cases hx : x.key = end_
        · have hprev := laws.prev _ x hstands
          rw [laws.entries_seek_for_prev, hx] at hprev
          simpa [hstands.valid, hstands.key, hx] using hprev
        · have hle := List.find?_some hfind
          have hlt : x.key < end_ := lt_of_le_of_ne (by simpa using hle) hx
          have hbelow : (view cursor).reverse.find? (·.key < end_) = some x :=
            SortedWalk.find?_of_imp hfind (by simpa using hlt)
              (fun y hy => by simpa using (of_decide_eq_true hy).le)
          rw [hbelow]
          simpa [hstands.valid, hstands.key, hx] using hstands.movesTo
  · simpa [hfailed.valid] using hfailed.movesTo hfaulty

theorem restart_cursor_movesTo (laws : CursorLaws view faulty) (cursor : C) :
    MovesTo faulty (restart_cursor b cursor)
      ((b.oriented (view cursor)).find? (b.entered ·.key)) := by
  have hfirst (list : List Item) : list.find? (fun _ => true) = list.head? := by
    cases list <;> rfl
  obtain ⟨start, end_, reverse, keys_only⟩ := b
  cases reverse with
  | false =>
      cases start with
      | none => simpa [restart_cursor, Bounds.oriented, hfirst] using laws.seek_to_first cursor
      | some start => simpa [restart_cursor, Bounds.oriented] using laws.seek cursor start
  | true =>
      cases end_ with
      | none => simpa [restart_cursor, Bounds.oriented, hfirst] using laws.seek_to_last cursor
      | some end_ =>
          simpa [restart_cursor, Bounds.oriented] using seek_below_movesTo laws cursor end_

theorem view_step_cursor (laws : CursorLaws view faulty) (cursor : C) :
    view (step_cursor b cursor) = view cursor := by
  unfold step_cursor
  cases b.reverse
  · exact laws.entries_next cursor
  · exact laws.entries_prev cursor

theorem view_restart_cursor (laws : CursorLaws view faulty) (cursor : C) :
    view (restart_cursor b cursor) = view cursor := by
  unfold restart_cursor
  cases b.reverse with
  | false =>
      cases b.start with
      | none => exact laws.entries_seek_to_first cursor
      | some start => exact laws.entries_seek cursor start
  | true =>
      cases b.end_ with
      | none => exact laws.entries_seek_to_last cursor
      | some end_ =>
          simp only [if_true]
          split
          · rw [laws.entries_prev, laws.entries_seek_for_prev]
          · exact laws.entries_seek_for_prev cursor end_

end Moves

-- A move meant for the first entry that satisfies `reach` walks on from there.
theorem moved_runs (laws : CursorLaws view faulty) {reach : Item → Bool}
    (hview : view cursor = entries) (hup : SortedWalk.Upward b.before reach)
    (hreach : ∀ x, reach x → b.entered x.key)
    (hmoves : MovesTo faulty cursor ((b.oriented entries).find? reach)) :
    (walking b Cut).Runs faulty ((b.listing entries).filter reach)
      (moved b cursor : Except Raised Bool × Source C T S) := by
  have hascending : Ascending entries := hview ▸ laws.ascending cursor
  have hlist := Bounds.listing_reach hascending hup hreach
  -- Each entry found leaves one less to come.
  induction hlength : ((b.listing entries).filter reach).length using Nat.strongRecOn
    generalizing cursor reach with
  | ind n ih =>
      rcases hmoves with hstands | ⟨hfaulty, hfailed⟩
      · cases hfind : (b.oriented entries).find? reach with
        | none =>
            rw [hfind] at hstands hlist
            rw [hlist]
            exact .ended (cursor_valid_none hstands) (over_snapshot (cursor_in_range_none hstands) _)
        | some x =>
            rw [hfind] at hstands hlist
            by_cases hin : b.contains x.key
            · simp only [hin, if_true] at hlist
              rw [hlist] at hlength ⊢
              have hvalid := cursor_valid_some (b := b) hstands
              have hinside := (cursor_in_range_of_key (b := b) hstands).trans hin
              refine .found (hvalid.trans (by rw [hin])) (shows_snapshot hstands hin) ?_
              have hnext : EntrySource.step b (.Snapshot cursor : Source C T S) =
                  moved b (step_cursor b cursor) := by
                change Source.step b (.Snapshot cursor) = _
                simp [Source.step, hinside]
              change (walking b Cut).Runs faulty _ (EntrySource.step b (.Snapshot cursor))
              rw [hnext]
              have hentered : ∀ y, decide (b.before x y) → b.entered y.key := fun y hy =>
                Bounds.entered_of_before (of_decide_eq_true hy)
                  ((b.contains_iff_entered x.key).mp hin).1
              refine ih _ ?_ ((view_step_cursor laws cursor).trans hview)
                (Bounds.before_upward x) hentered (hview ▸ step_cursor_movesTo laws hstands)
                (Bounds.listing_reach hascending (Bounds.before_upward x) hentered) rfl
              simp only [List.length_cons] at hlength
              omega
            · simp only [hin] at hlist
              rw [hlist]
              have hout : b.contains x.key = false := by simpa using hin
              exact .ended ((cursor_valid_some hstands).trans (by rw [hout]))
                (over_snapshot ((cursor_in_range_of_key hstands).trans hout) _)
      · obtain ⟨error, herror⟩ := cursor_valid_failed (b := b) hfailed
        exact .failed hfaulty herror hfailed

theorem restart_runs (laws : CursorLaws view faulty) (cursor : C) :
    (walking b Cut).Runs faulty (b.listing (view cursor))
      (moved b (restart_cursor b cursor) : Except Raised Bool × Source C T S) := by
  have hall : (b.listing (view cursor)).filter (b.entered ·.key) = b.listing (view cursor) := by
    apply List.filter_eq_self.mpr
    intro x hx
    simpa using ((b.contains_iff_entered x.key).mp (Bounds.mem_listing hx)).1
  rw [← hall]
  exact moved_runs laws (view_restart_cursor laws cursor) Bounds.entered_upward
    (fun x hx => of_decide_eq_true hx) (restart_cursor_movesTo laws cursor)

theorem seek_forward_runs (laws : CursorLaws view faulty) (cursor : C) (target : Bytes)
    (hdirection : b.reverse = false) :
    (walking b Cut).Runs faulty ((b.listing (view cursor)).filter (b.reached target))
      (moved b (OwnedSnapshotIter.seek cursor (clamp_start b target)) :
        Except Raised Bool × Source C T S) := by
  have hsame : (b.listing (view cursor)).filter (b.reached target) =
      (b.listing (view cursor)).filter (clamp_start b target ≤ ·.key) := by
    apply List.filter_congr
    intro x hx
    have hin := (b.contains_iff x.key).mp (Bounds.mem_listing hx)
    rw [Bounds.reached_forward hdirection]
    exact decide_eq_decide.mpr (clamp_start_le_iff target hin.1).symm
  rw [hsame]
  apply moved_runs laws (laws.entries_seek cursor _)
  · intro x y hxy hx
    simp only [Bounds.before, hdirection, Bool.false_eq_true, if_false] at hxy
    simpa using (of_decide_eq_true hx).trans hxy.le
  · intro x hx
    simp only [Bounds.entered, hdirection, Bool.false_eq_true, if_false]
    exact fun start hstart => (start_le_clamp_start target hstart).trans (of_decide_eq_true hx)
  · simpa [Bounds.oriented, hdirection] using laws.seek cursor (clamp_start b target)

theorem seek_reverse_runs (laws : CursorLaws view faulty) (cursor : C) (target : Bytes)
    (hdirection : b.reverse = true) (hbelow : above_end b target = false) :
    (walking b Cut).Runs faulty ((b.listing (view cursor)).filter (b.reached target))
      (moved b (seek_for_prev cursor target) : Except Raised Bool × Source C T S) := by
  apply moved_runs laws (laws.entries_seek_for_prev cursor target) (Bounds.reached_upward target)
  · intro x hx
    rw [Bounds.reached_reverse hdirection] at hx
    simp only [Bounds.entered, hdirection, if_true]
    exact fun end_ hend => (of_decide_eq_true hx).trans_lt (lt_of_above_end_false hbelow hend)
  · have hmoves := laws.seek_for_prev cursor target
    simpa [Bounds.oriented, Bounds.reached_reverse hdirection, hdirection] using hmoves

omit [OwnedTransaction T S] in
theorem view_step (laws : CursorLaws view faulty) {source : Source C T S}
    (h : OverSnapshot view entries source) : OverSnapshot view entries (source.step b).2 := by
  cases source with
  | Txn txn stream current => exact h.elim
  | Snapshot cursor =>
      simp only [step]
      split
      · exact (view_step_cursor laws cursor).trans h
      · exact h

theorem view_seek (laws : CursorLaws view faulty) (target : Bytes) {source : Source C T S}
    (h : OverSnapshot view entries source) :
    OverSnapshot view entries (EntrySource.seek b target source).2 := by
  cases source with
  | Txn txn stream current => exact h.elim
  | Snapshot cursor =>
      simp only [EntrySource.seek, entrySource_seek_reverse, entrySource_seek_forward, seek_reverse]
      split
      · split
        · exact (view_restart_cursor laws cursor).trans h
        · exact (laws.entries_seek_for_prev cursor target).trans h
      · exact (laws.entries_seek cursor _).trans h

theorem seek_runs (laws : CursorLaws view faulty) (cursor : C) (target : Bytes) :
    (walking b Cut).Runs faulty ((b.listing (view cursor)).filter (b.reached target))
      (EntrySource.seek b target (.Snapshot cursor : Source C T S)) := by
  simp only [EntrySource.seek, entrySource_seek_reverse, entrySource_seek_forward]
  cases hdirection : b.reverse with
  | false => exact seek_forward_runs laws cursor target hdirection
  | true =>
      simp only [if_true, seek_reverse]
      cases habove : above_end b target with
      | false => exact seek_reverse_runs laws cursor target hdirection habove
      | true =>
          have hall : (b.listing (view cursor)).filter (b.reached target) =
              b.listing (view cursor) := by
            apply List.filter_eq_self.mpr
            intro x hx
            have hin := (b.contains_iff x.key).mp (Bounds.mem_listing hx)
            rw [Bounds.reached_reverse hdirection]
            simpa using (lt_of_above_end habove hin.2).le
          rw [hall]
          exact restart_runs laws cursor

theorem snapshot_walks (laws : CursorLaws view faulty) (b : Bounds) (entries : List Item) :
    Walks b (b.listing entries) faulty (OverSnapshot (T := T) (S := S) view entries) Cut where
  live_restart source h := by
    cases source with
    | Txn txn stream current => exact h.elim
    | Snapshot cursor => exact (view_restart_cursor laws cursor).trans h
  live_seek source target h := view_seek laws target h
  live_step source h := view_step laws h
  restart source h := by
    cases source with
    | Txn txn stream current => exact h.elim
    | Snapshot cursor =>
        obtain rfl := h
        exact restart_runs laws cursor
  seek source target h := by
    cases source with
    | Txn txn stream current => exact h.elim
    | Snapshot cursor =>
        obtain rfl := h
        exact seek_runs laws cursor target

end Regolith.Ffi.Source
