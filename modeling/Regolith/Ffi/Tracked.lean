import Regolith.Ffi.Iter.Agreement

-- A source that keeps, beside itself, the entries beyond its position. Nothing of it
-- is read by the iterator, and its answers are those of the source.
namespace Regolith.Ffi

structure Tracked (σ : Type) where
  source : σ
  all : List Item
  beyond : List Item

namespace Tracked

variable {σ : Type} [EntrySource σ]

-- After a move that looks for the first entry of `sought`: found, it is passed.
def note (t : Tracked σ) (sought : List Item) (result : Except Raised Bool × σ) :
    Except Raised Bool × Tracked σ :=
  let beyond :=
    match result.1 with
    | .ok true => sought.tail
    | _ => sought
  (result.1, { t with source := result.2, beyond := beyond })

instance : EntrySource (Tracked σ) where
  restart b t := t.note t.all (EntrySource.restart b t.source)
  step b t := t.note t.beyond (EntrySource.step b t.source)
  seek_forward b target t :=
    t.note (t.all.filter (b.reached target)) (EntrySource.seek_forward b target t.source)
  seek_reverse b target t :=
    t.note (t.all.filter (b.reached target)) (EntrySource.seek_reverse b target t.source)
  in_range b t := EntrySource.in_range b t.source
  key t := EntrySource.key t.source
  value t := EntrySource.value t.source
  value_slice t := EntrySource.value_slice t.source

@[simp] theorem restart_eq (b : Bounds) (t : Tracked σ) :
    EntrySource.restart b t = t.note t.all (EntrySource.restart b t.source) := rfl

@[simp] theorem step_eq (b : Bounds) (t : Tracked σ) :
    EntrySource.step b t = t.note t.beyond (EntrySource.step b t.source) := rfl

theorem seek_eq (b : Bounds) (target : Bytes) (t : Tracked σ) :
    EntrySource.seek b target t =
      t.note (t.all.filter (b.reached target)) (EntrySource.seek b target t.source) := by
  simp only [EntrySource.seek]
  split <;> rfl

-- Before anything was moved.
def start (source : σ) (all : List Item) : Tracked σ := ⟨source, all, all⟩

theorem sameAnswers (b : Bounds) :
    SameAnswers b (fun (t : Tracked σ) (s : σ) => t.source = s) where
  restart := by
    rintro t _ rfl
    exact ⟨rfl, rfl⟩
  step := by
    rintro t _ rfl
    exact ⟨rfl, rfl⟩
  seek := by
    rintro target t _ rfl
    rw [seek_eq]
    exact ⟨rfl, rfl⟩
  in_range := by
    rintro t _ rfl
    rfl
  key := by
    rintro t _ rfl _
    rfl
  value := by
    rintro t _ rfl _ _
    exact ⟨rfl, rfl⟩

end Tracked

namespace RegolithIter

variable {σ : Type} [EntrySource σ]

-- The iterator without the record of its position.
def untracked (it : RegolithIter (Tracked σ)) : RegolithIter σ :=
  { it with source := it.source.source }

omit [EntrySource σ] in
theorem alike_untracked (it : RegolithIter (Tracked σ)) :
    Alike it.bounds (fun (t : Tracked σ) (s : σ) => t.source = s) it it.untracked :=
  ⟨rfl, rfl, rfl, rfl, rfl, rfl, rfl, rfl⟩

omit [EntrySource σ] in
theorem Alike.eq_untracked {b : Bounds} {it : RegolithIter (Tracked σ)} {it' : RegolithIter σ}
    (h : Alike b (fun (t : Tracked σ) (s : σ) => t.source = s) it it') : it' = it.untracked := by
  obtain ⟨hbounds, hbounds', hsource, hreset, hcurrent, hvalues, hcount, hpending⟩ := h
  cases it'
  simp_all [untracked]

-- Keeping the record changes no reply.
theorem run_untracked (it : RegolithIter (Tracked σ)) (call : IterCall) :
    (call.run it).1 = (call.run it.untracked).1 ∧
      (call.run it.untracked).2 = (call.run it).2.untracked := by
  obtain ⟨hreply, hafter⟩ := Alike.run (Tracked.sameAnswers it.bounds) it.alike_untracked call
  exact ⟨hreply, hafter.eq_untracked⟩

end RegolithIter

end Regolith.Ffi
