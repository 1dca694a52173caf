import Regolith.Ffi.Iter.Agreement
import Regolith.Ffi.Iter.Theorems

-- Where a fault-free iterator stands in the list its source walks.
namespace Regolith.Ffi

-- The entries before `index` are behind the iterator. After a seek it has `landed` on
-- the entry at `index`: a batch starts with it, a step passes it.
structure Position where
  index : Nat
  landed : Bool
  deriving DecidableEq

namespace Position

def start : Position := ⟨0, false⟩

-- The index of the entry that a single step moves to.
def next (p : Position) : Nat := if p.landed then p.index + 1 else p.index

end Position

namespace RegolithIter

open EntrySource

variable {σ : Type} [EntrySource σ] {b : Bounds} {list : List Item} {Live Cut : σ → Prop}
  {p : Position} {it : RegolithIter σ}

inductive Standing (Cut : σ → Prop) (list : List Item) : Position → RegolithIter σ → Prop where
  | restarting {it : RegolithIter σ} (hreset : it.reset = true)
      (hcurrent : it.include_current = false) : Standing Cut list .start it
  | landed {it : RegolithIter σ} {index : Nat} (hreset : it.reset = false)
      (hcurrent : it.include_current = true)
      (hstands : (walking it.bounds Cut).Stands none list[index]? (list.drop (index + 1)) it.source) :
      Standing Cut list ⟨index, true⟩ it
  | moved {it : RegolithIter σ} {index : Nat} (hreset : it.reset = false)
      (hcurrent : it.include_current = false)
      (hyields : (walking it.bounds Cut).Yields none (list.drop index)
        (EntrySource.step it.bounds it.source)) : Standing Cut list ⟨index, false⟩ it

structure Placed (b : Bounds) (list : List Item) (Live Cut : σ → Prop) (p : Position)
    (it : RegolithIter σ) : Prop where
  bounds : it.bounds = b
  live : Live it.source
  pending : it.pending = none
  standing : Standing Cut list p it

theorem placed_over {source : σ} (h : Live source) :
    Placed b list Live Cut .start (from_source source b) :=
  ⟨rfl, h, rfl, .restarting rfl rfl⟩

-- The two outcomes of a move to `index`, by whether the list goes that far.
theorem yields_drop {index : Nat} {result : Except Raised Bool × σ}
    (h : (walking b Cut).Yields none (list.drop index) result) :
    result.1 = .ok list[index]?.isSome ∧
      (walking b Cut).Stands none list[index]? (list.drop (index + 1)) result.2 := by
  rcases hdrop : list.drop index with _ | ⟨x, xs⟩
  · rw [hdrop] at h
    have hlength : list.length ≤ index := List.drop_eq_nil_iff.mp hdrop
    have hnone : list[index]? = none := List.getElem?_eq_none hlength
    have hbeyond : list.drop (index + 1) = [] := List.drop_eq_nil_iff.mpr (by omega)
    rw [hnone, hbeyond]
    exact ⟨h.1, Pull.Over.stands h.2⟩
  · rw [hdrop] at h
    have hsome : list[index]? = some x := by
      rw [← List.head?_drop, hdrop]
      rfl
    have hbeyond : list.drop (index + 1) = xs := by
      rw [← List.tail_drop, hdrop]
      rfl
    rw [hsome, hbeyond]
    exact ⟨h.1, h.stands⟩

theorem advance_in_batch_landed (hreset : it.reset = false) (hcurrent : it.include_current = true) :
    it.advance_in_batch = (.ok it.in_range, { it with include_current := false }) := by
  simp [advance_in_batch, hreset, hcurrent]

-- After a seek a batch starts with the entry it landed on.
theorem upcoming_landed {fin : Option Raised} {x : Item} {xs : List Item}
    (hreset : it.reset = false) (hcurrent : it.include_current = true)
    (hstands : (walking it.bounds Cut).Stands fin (some x) xs it.source) :
    Upcoming Cut fin (x :: xs) it := by
  unfold Upcoming
  rw [advance_in_batch_landed hreset hcurrent, in_range, stands_in_range hstands]
  exact ⟨rfl, hstands⟩

theorem Placed.upcoming (walks : Walks b list False Live Cut)
    (h : Placed b list Live Cut p it) : Upcoming Cut none (list.drop p.index) it := by
  obtain ⟨hbounds, hlive, hpending, hstanding⟩ := h
  unfold Upcoming
  cases hstanding with
  | restarting hreset hcurrent =>
      simp only [advance_in_batch, hreset, if_true, restart, on_source, hbounds]
      exact (walks.restart _ hlive).yields
  | moved hreset hcurrent hyields =>
      rw [advance_in_batch_step hreset hcurrent]
      exact hyields
  | @landed _ index hreset hcurrent hstands =>
      cases hsome : list[index]? with
      | none =>
          have hlength : list.length ≤ index := List.getElem?_eq_none_iff.mp hsome
          have hnil : list.drop index = [] := List.drop_eq_nil_iff.mpr hlength
          have hbeyond : list.drop (index + 1) = [] := List.drop_eq_nil_iff.mpr (by omega)
          rw [hsome, hbeyond] at hstands
          rw [hnil, advance_in_batch_landed hreset hcurrent, in_range, stands_in_range hstands]
          exact ⟨rfl, hstands.isOver⟩
      | some x =>
          obtain ⟨hlt, rfl⟩ := List.getElem?_eq_some_iff.mp hsome
          rw [hsome] at hstands
          rw [List.drop_eq_getElem_cons hlt]
          exact upcoming_landed hreset hcurrent hstands

-- `regolith_iter_next` from any position.
theorem Placed.advance (walks : Walks b list False Live Cut)
    (h : Placed b list Live Cut p it) :
    it.advance.1 = .ok list[p.next]?.isSome ∧
      Shows b list[p.next]? it.advance.2.source ∧
      Placed b list Live Cut ⟨p.next + 1, false⟩ it.advance.2 := by
  obtain ⟨rfl, hlive, hpending, hstanding⟩ := h
  cases hstanding with
  | restarting hreset hcurrent =>
      have hyields := (walks.restart _ hlive).yields
      rw [← List.drop_zero (l := list)] at hyields
      obtain ⟨hresult, hstands⟩ := yields_drop hyields
      rw [advance_reset hreset]
      exact ⟨hresult, hstands.1, rfl, walks.live_restart _ hlive, hpending,
        .moved rfl rfl hstands.2⟩
  | @landed _ index hreset hcurrent hstands =>
      obtain ⟨hresult, hafter⟩ := yields_drop hstands.2
      rw [advance_step hreset]
      exact ⟨hresult, hafter.1, rfl, walks.live_step _ hlive, hpending,
        .moved hreset rfl hafter.2⟩
  | @moved _ index hreset hcurrent hyields =>
      obtain ⟨hresult, hafter⟩ := yields_drop hyields
      rw [advance_step hreset]
      exact ⟨hresult, hafter.1, rfl, walks.live_step _ hlive, hpending,
        .moved hreset rfl hafter.2⟩

-- A seek lands on the first entry at or past its target, from anywhere.
theorem placed_seek (walks : Walks b list False Live Cut) (hsorted : list.Pairwise b.before)
    (hbounds : it.bounds = b) (hlive : Live it.source) (target : Bytes) :
    (it.seek target).1 = .ok list[list.findIdx (b.reached target)]?.isSome ∧
      Shows b list[list.findIdx (b.reached target)]? (it.seek target).2.source ∧
      Placed b list Live Cut ⟨list.findIdx (b.reached target), true⟩ (it.seek target).2 := by
  subst hbounds
  have hyields := (walks.seek _ target hlive).yields
  rw [SortedWalk.filter_eq_drop_findIdx hsorted (Bounds.reached_upward target)] at hyields
  obtain ⟨hresult, hstands⟩ := yields_drop hyields
  rw [seek_eq]
  exact ⟨hresult, hstands.1, rfl, walks.live_seek _ target hlive, rfl, .landed rfl rfl hstands⟩

-- After a batch that took `count` entries.
theorem Placed.between (h : Placed b list Live Cut p it)
    {after : RegolithIter σ} {count : Nat} (hbounds : after.bounds = it.bounds)
    (hlive : Live after.source)
    (hbetween : Between Cut none ((list.drop p.index).drop count) after) :
    Placed b list Live Cut ⟨p.index + count, false⟩ after := by
  cases hbetween with
  | held failure _ _ _ _ hfin => simp at hfin
  | more hpending hreset hcurrent hyields =>
      rw [List.drop_drop] at hyields
      exact ⟨hbounds.trans h.bounds, hlive, hpending, .moved hreset hcurrent hyields⟩

theorem placed_reset (hbounds : it.bounds = b) (hlive : Live it.source) (err : OutParam) :
    Placed b list Live Cut .start (regolith_iter_reset it err).2 :=
  ⟨hbounds, hlive, rfl, .restarting rfl rfl⟩

-- `regolith_iter_next_batch` from any position.
theorem Placed.next_batch (walks : Walks b list False Live Cut)
    (h : Placed b list Live Cut p it) {max_entries : Nat} (hmax : max_entries ≠ 0)
    (err : OutParam) :
    (¬Framable (gathered b.keys_only max_entries 0 (list.drop p.index)) ∧
        (regolith_iter_next_batch it max_entries .writable .writable .writable err).1 =
          guard err (fail (.other "key longer than 4 GiB"))) ∨
      Framable (gathered b.keys_only max_entries 0 (list.drop p.index)) ∧
        HandsOver Cut none (gathered b.keys_only max_entries 0 (list.drop p.index))
          (list.drop p.index) err it
          (regolith_iter_next_batch it max_entries .writable .writable .writable err) ∧
        Placed b list Live Cut
          ⟨p.index + (gathered b.keys_only max_entries 0 (list.drop p.index)).length, false⟩
          (regolith_iter_next_batch it max_entries .writable .writable .writable err).2 := by
  have hyields := next_batch_yields (by simp) (h.upcoming walks) h.pending (.inr rfl) hmax err
  rw [h.bounds] at hyields
  have hlive := ((keepsLive walks.live_restart walks.live_step).next_batch ⟨h.bounds, h.live⟩
    max_entries .writable .writable .writable err).2
  rcases hyields with hlong | ⟨hshort, hover⟩
  · exact .inl hlong
  · exact .inr ⟨hshort, hover, h.between hover.bounds hlive hover.between⟩

end RegolithIter

end Regolith.Ffi
