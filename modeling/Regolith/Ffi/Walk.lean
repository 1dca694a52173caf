import Regolith.Ffi.Listing
import Regolith.Ffi.Source
import Regolith.Library.Pull

-- What a source is for: walking a list of entries, from its start or from a target.
namespace Regolith.Ffi.EntrySource

variable {σ : Type} [EntrySource σ]

def Shows (b : Bounds) : Option Item → σ → Prop
  | none, source => in_range b source = false
  | some x, source =>
      in_range b source = true ∧ key source = some x.key ∧
        (b.keys_only = false → value source = some x.value ∧ value_slice source = some x.value)

theorem Shows.in_range {b : Bounds} {current : Option Item} {source : σ}
    (h : Shows b current source) : in_range b source = current.isSome := by
  cases current with
  | none => exact h
  | some x => exact h.1

-- The source as a pull iterator. `Cut` tells a source that a failure has left behind.
def walking (b : Bounds) (Cut : σ → Prop) : Pull σ Raised Item :=
  ⟨step b, Shows b, Cut⟩

theorem stands_in_range {b : Bounds} {Cut : σ → Prop} {fin : Option Raised}
    {current : Option Item} {rest : List Item} {source : σ}
    (h : (walking b Cut).Stands fin current rest source) : in_range b source = current.isSome :=
  Shows.in_range (b := b) h.1

def seek (b : Bounds) (target : Bytes) (source : σ) : Except Raised Bool × σ :=
  if b.reverse then seek_reverse b target source else seek_forward b target source

-- Every source in `Live` walks `list`, however it is moved.
structure Walks (b : Bounds) (list : List Item) (faulty : Prop) (Live Cut : σ → Prop) : Prop where
  live_restart : ∀ source, Live source → Live (restart b source).2
  live_seek : ∀ source target, Live source → Live (seek b target source).2
  live_step : ∀ source, Live source → Live (step b source).2
  restart : ∀ source, Live source → (walking b Cut).Runs faulty list (restart b source)
  seek : ∀ source target, Live source →
    (walking b Cut).Runs faulty (list.filter (b.reached target)) (seek b target source)

-- Sources of either kind.
theorem Walks.or {b : Bounds} {list : List Item} {faulty : Prop} {Live Live' Cut : σ → Prop}
    (h : Walks b list faulty Live Cut) (h' : Walks b list faulty Live' Cut) :
    Walks b list faulty (fun source => Live source ∨ Live' source) Cut where
  live_restart source hlive := hlive.imp (h.live_restart source) (h'.live_restart source)
  live_seek source target hlive := hlive.imp (h.live_seek source target) (h'.live_seek source target)
  live_step source hlive := hlive.imp (h.live_step source) (h'.live_step source)
  restart source hlive := hlive.elim (h.restart source) (h'.restart source)
  seek source target hlive := hlive.elim (h.seek source target) (h'.seek source target)

end Regolith.Ffi.EntrySource
