import Mathlib.Data.List.Infix
import Regolith.Go.InMemory.Iter

-- A batch in memory is the one that its calls make, whatever the code does with its slices, and
-- these are left alone.
namespace Regolith.Go.InMemory

open Ffi Memory Slice

variable {grow : Nat → Nat → Nat}

section Calls

variable {h : Mem} {buf field key value : Slice} {b : WriteBatch}

theorem appendField_grew (grow : Nat → Nat → Nat) (hbuf : buf.Fits h) (hfield : field.Fits h)
    (hapart : buf.Apart field) :
    Grew h buf (appendField grow h buf field).2 (appendField grow h buf field).1
      (Radix.toLE 8 (field.read h).length ++ field.read h) := by
  have hlength := append_grew grow (Radix.toLE 8 field.len) hbuf
  obtain ⟨-, hread, -⟩ := hlength.moves field hfield hapart
  have hbytes := append_grew grow (field.read h) hlength.fits
  rw [hfield.length_read]
  unfold appendField
  simp only [hread]
  exact hlength.trans hbytes

-- What a call makes of a batch, and of the slices apart from it.
structure Acts (h : Mem) (b : WriteBatch) (h' : Mem) (b' : WriteBatch) (call : BatchCall) :
    Prop where
  fits : b'.buf.Fits h'
  value : b'.value h' = call.apply (b.value h)
  moves : Moves h b.buf h' b'.buf
  room : b.buf.cap ≤ b'.buf.cap
  in_place : (call.apply (b.value h)).Size ≤ b.buf.cap → h'.length = h.length

theorem Acts.of_grew {h' : Mem} {buf' : Slice} {data : Bytes} {call : BatchCall}
    (hg : Grew h b.buf h' buf' data) (hb : b.buf.Fits h)
    (hcall : call.apply (b.value h) = ⟨b.buf.read h ++ data, b.n + 1⟩) :
    Acts h b h' ⟨buf', b.n + 1⟩ call where
  fits := hg.fits
  value := by rw [hcall, WriteBatch.value, hg.read]
  moves := hg.moves
  room := hg.room
  in_place hsize := by
    rw [hcall, Go.WriteBatch.Size, List.length_append, hb.length_read] at hsize
    exact (hg.in_place hsize).1

theorem set_acts (hb : b.buf.Fits h) (hkey : key.Fits h) (hkapart : b.buf.Apart key)
    (hvalue : value.Fits h) (hvapart : b.buf.Apart value) :
    Acts h b (b.Set grow h key value).2 (b.Set grow h key value).1
      (.Set (key.read h) (value.read h)) := by
  have htag := append_grew grow [opSet] hb
  obtain ⟨hkey₁, hkread, hkapart₁⟩ := htag.moves key hkey hkapart
  obtain ⟨hvalue₁, hvread, hvapart₁⟩ := htag.moves value hvalue hvapart
  have hfield := appendField_grew grow htag.fits hkey₁ hkapart₁
  obtain ⟨hvalue₂, hvread₂, hvapart₂⟩ := hfield.moves value hvalue₁ hvapart₁
  have hfield₂ := appendField_grew grow hfield.fits hvalue₂ hvapart₂
  refine .of_grew ((htag.trans hfield).trans hfield₂) hb ?_
  simp [BatchCall.apply, Go.WriteBatch.Set, Go.appendField, WriteBatch.value, hkread, hvread₂,
    hvread]

theorem delete_acts (hb : b.buf.Fits h) (hkey : key.Fits h) (hapart : b.buf.Apart key) :
    Acts h b (b.Delete grow h key).2 (b.Delete grow h key).1 (.Delete (key.read h)) := by
  have htag := append_grew grow [opDelete] hb
  obtain ⟨hkey₁, hread, hapart₁⟩ := htag.moves key hkey hapart
  have hfield := appendField_grew grow htag.fits hkey₁ hapart₁
  refine .of_grew (htag.trans hfield) hb ?_
  simp [BatchCall.apply, Go.WriteBatch.Delete, Go.appendField, WriteBatch.value, hread]

theorem reset_acts (hb : b.buf.Fits h) : Acts h b h b.Reset .Reset where
  fits := ⟨Nat.zero_le _, hb.room⟩
  value := by
    simp [BatchCall.apply, Go.WriteBatch.Reset, WriteBatch.value, WriteBatch.Reset, Slice.read]
  moves t ht hapart := ⟨ht, rfl, hapart⟩
  room := Nat.le_refl _
  in_place _ := rfl

end Calls

namespace Client

variable {σ : Type} {c : Client σ} {i : Nat} {b : WriteBatch} {mem : Mem} {s : Step σ}

-- The slices that are not of a batch.
def outside (c : Client σ) : List Slice := c.slices ++ c.iters.map (·.buf)

-- Every slice is within its array, and no two batches share one, or share it with another slice.
structure Kept (c : Client σ) : Prop where
  slices : ∀ t ∈ c.slices, t.Fits c.mem
  iters : ∀ it ∈ c.iters, it.buf.Fits c.mem ∧ it.buf.len = it.buf.cap
  batches : ∀ {i : Nat} {b : WriteBatch}, c.batches[i]? = some b → b.buf.Fits c.mem
  apart : ∀ {i : Nat} {b : WriteBatch}, c.batches[i]? = some b → ∀ t ∈ c.outside, b.buf.Apart t
  alone : ∀ {i j : Nat} {b b' : WriteBatch}, i ≠ j → c.batches[i]? = some b →
    c.batches[j]? = some b' → b.buf.Apart b'.buf

theorem first_kept : Kept (first : Client σ) :=
  ⟨by simp [first], by simp [first], by simp [first], by simp [first], by simp [first]⟩

theorem Kept.outside (h : Kept c) {t : Slice} (ht : t ∈ c.outside) : t.Fits c.mem := by
  rcases List.mem_append.mp ht with ht | ht
  · exact h.slices t ht
  · obtain ⟨it, hit, rfl⟩ := List.mem_map.mp ht
    exact (h.iters it hit).1

theorem Kept.apart_slice (h : Kept c) (hb : c.batches[i]? = some b) {t : Slice}
    (ht : t ∈ c.slices) : b.buf.Apart t :=
  h.apart hb t (List.mem_append_left _ ht)

theorem Kept.apart_iter (h : Kept c) (hb : c.batches[i]? = some b) {it : Iter σ}
    (hit : it ∈ c.iters) : b.buf.Apart it.buf :=
  h.apart hb it.buf (List.mem_append_right _ (List.mem_map_of_mem hit))

-- What a step does, in a client that keeps to this.
structure Does (c : Client σ) (s : Step σ) (c' : Client σ) : Prop where
  kept : Kept c'
  held : ∀ i, c'.held i = fill (c.held i) (c.call i s).toList
  room : ∀ {i : Nat} {b : WriteBatch}, c.batches[i]? = some b →
    ∃ b' : WriteBatch, c'.batches[i]? = some b' ∧ b.buf.cap ≤ b'.buf.cap
  slices : c.slices <+: c'.slices
  reads : ∀ t ∈ c.outside, c.writes s ≠ some t.array → t.read c'.mem = t.read c.mem
  in_place : ∀ {i : Nat} {b : WriteBatch}, s.on = some i → c.batches[i]? = some b →
    (c'.held i).Size ≤ b.buf.cap → c'.mem.length = c.mem.length

theorem held_eq {holder : Holder UInt8} {batches : List WriteBatch} {iters : List (Iter σ)}
    (h : batches[i]? = some b) : held ⟨holder, batches, iters⟩ i = b.value holder.mem := by
  simp [held, h]

theorem held_congr {c' : Client σ} (hbatches : c'.batches[i]? = c.batches[i]?)
    (hread : ∀ b, c.batches[i]? = some b → b.buf.read c'.mem = b.buf.read c.mem) :
    c'.held i = c.held i := by
  unfold held
  rw [hbatches]
  cases hb : c.batches[i]? with
  | none => rfl
  | some b => simp only [WriteBatch.value, hread b hb]

theorem call_of_on (hon : s.on = none) (i : Nat) : c.call i s = none := by
  cases s <;> simp_all [Step.on, call]

theorem does_nothing (h : Kept c) (hcall : ∀ i, c.call i s = none) : Does c s c where
  kept := h
  held i := by rw [hcall]; rfl
  room hb := ⟨_, hb, Nat.le_refl _⟩
  slices := List.prefix_refl _
  reads _ _ _ := rfl
  in_place _ _ _ := rfl

-- The code's own moves, and an iterator's calls.
theorem does_apart (h : Kept c) (hon : s.on = none) {holder : Holder UInt8}
    {iters : List (Iter σ)} (hslices : c.slices <+: holder.slices)
    (hfits : ∀ t : Slice, t.Fits c.mem → t.Fits holder.mem)
    (hreads : ∀ t ∈ c.outside, c.writes s ≠ some t.array → t.read holder.mem = t.read c.mem)
    (hown : ∀ t ∈ holder.slices, t.Fits holder.mem)
    (hiters : ∀ it ∈ iters, it.buf.Fits holder.mem ∧ it.buf.len = it.buf.cap)
    (hbatches : ∀ {i : Nat} {b : WriteBatch}, c.batches[i]? = some b →
      b.buf.read holder.mem = b.buf.read c.mem ∧
        ∀ t ∈ holder.slices ++ iters.map (·.buf), b.buf.Apart t) :
    Does c s ⟨holder, c.batches, iters⟩ where
  kept := ⟨hown, hiters, fun hb => hfits _ (h.batches hb), fun hb => (hbatches hb).2, h.alone⟩
  held i := by
    rw [call_of_on hon]
    exact held_congr rfl fun b hb => (hbatches hb).1
  room hb := ⟨_, hb, Nat.le_refl _⟩
  slices := hslices
  reads := hreads
  in_place hsome := by simp [hon] at hsome

theorem of_snoc {batches : List WriteBatch} {b' : WriteBatch}
    (h : (batches ++ [b])[i]? = some b') :
    batches[i]? = some b' ∨ i = batches.length ∧ b' = b := by
  rw [List.getElem?_append] at h
  split_ifs at h with hi
  · exact .inl h
  · obtain ⟨hlt, rfl⟩ := List.getElem?_eq_some_iff.mp h
    simp only [List.length_singleton] at hlt
    exact .inr ⟨by omega, by simp⟩

-- A new batch.
theorem does_new (h : Kept c) (hon : s.on = none) (hfits : b.buf.Fits mem)
    (hvalue : b.value mem = .zero)
    (hmoves : ∀ t : Slice, t.Fits c.mem → t.Fits mem ∧ t.read mem = t.read c.mem ∧
      b.buf.Apart t) :
    Does c s ⟨⟨mem, c.slices⟩, c.batches ++ [b], c.iters⟩ where
  kept := by
    refine ⟨fun t ht => (hmoves t (h.slices t ht)).1, fun it hit => ?_, fun {i b'} hb => ?_,
      fun {i b'} hb t ht => ?_, fun {i j b₁ b₂} hij hb₁ hb₂ => ?_⟩
    · obtain ⟨hit', hwhole⟩ := h.iters it hit
      exact ⟨(hmoves _ hit').1, hwhole⟩
    · obtain hb | ⟨-, rfl⟩ := of_snoc hb
      · exact (hmoves _ (h.batches hb)).1
      · exact hfits
    · obtain hb | ⟨-, rfl⟩ := of_snoc hb
      · exact h.apart hb t ht
      · exact (hmoves t (h.outside ht)).2.2
    · obtain hold₁ | ⟨rfl, rfl⟩ := of_snoc hb₁ <;> obtain hold₂ | ⟨rfl, rfl⟩ := of_snoc hb₂
      · exact h.alone hij hold₁ hold₂
      · exact (hmoves _ (h.batches hold₁)).2.2.symm
      · exact (hmoves _ (h.batches hold₂)).2.2
      · exact absurd rfl hij
  held i := by
    rw [call_of_on hon]
    by_cases hi : i < c.batches.length
    · refine held_congr (List.getElem?_append_left hi) fun b hb => ?_
      exact (hmoves _ (h.batches hb)).2.1
    · have hnone : c.batches[i]? = none := List.getElem?_eq_none (Nat.le_of_not_lt hi)
      have hzero : held ⟨⟨mem, c.slices⟩, c.batches ++ [b], c.iters⟩ i = .zero := by
        unfold held
        cases hb : (c.batches ++ [b])[i]? with
        | none => rfl
        | some b' =>
          obtain hb | ⟨-, rfl⟩ := of_snoc hb
          · rw [hnone] at hb
            cases hb
          · exact hvalue
      rw [hzero, held, hnone]
      rfl
  room hb := ⟨_, List.getElem?_append_left (List.getElem?_eq_some_iff.mp hb).1 ▸ hb, Nat.le_refl _⟩
  slices := List.prefix_refl _
  reads t ht _ := (hmoves t (h.outside ht)).2.1
  in_place hsome := by simp [hon] at hsome

-- A call on a batch.
theorem does_call (h : Kept c) (hb : c.batches[i]? = some b) {b' : WriteBatch} {call : BatchCall}
    (hacts : Acts c.mem b mem b' call) (hon : s.on = some i)
    (hcall : ∀ j, c.call j s = if i = j then some call else none) :
    Does c s ⟨⟨mem, c.slices⟩, c.batches.set i b', c.iters⟩ := by
  have hset : ∀ {j : Nat} {b'' : WriteBatch}, (c.batches.set i b')[j]? = some b'' →
      i = j ∧ b'' = b' ∨ i ≠ j ∧ c.batches[j]? = some b'' := by
    intro j b'' hb''
    by_cases hj : i = j
    · subst hj
      rw [List.getElem?_set_self (List.getElem?_eq_some_iff.mp hb).1] at hb''
      exact .inl ⟨rfl, (Option.some.inj hb'').symm⟩
    · rw [List.getElem?_set_ne hj] at hb''
      exact .inr ⟨hj, hb''⟩
  have hself : (c.batches.set i b')[i]? = some b' :=
    List.getElem?_set_self (List.getElem?_eq_some_iff.mp hb).1
  have houtside : ∀ t ∈ c.outside, t.Fits mem ∧ t.read mem = t.read c.mem ∧ b'.buf.Apart t :=
    fun t ht => hacts.moves t (h.outside ht) (h.apart hb t ht)
  refine ⟨⟨fun t ht => (houtside t (List.mem_append_left _ ht)).1, fun it hit => ?_,
    fun {j b''} hb'' => ?_, fun {j b''} hb'' t ht => ?_, fun {j k b₁ b₂} hjk hb₁ hb₂ => ?_⟩,
    fun j => ?_, fun {j b''} hb'' => ?_, List.prefix_refl _, fun t ht _ => (houtside t ht).2.1,
    fun {j b''} hon' hb'' hsize => ?_⟩
  · have hit' : it.buf ∈ c.outside := List.mem_append_right _ (List.mem_map_of_mem hit)
    exact ⟨(houtside _ hit').1, (h.iters it hit).2⟩
  · obtain ⟨rfl, rfl⟩ | ⟨hne, hold⟩ := hset hb''
    · exact hacts.fits
    · exact (hacts.moves _ (h.batches hold) (h.alone hne hb hold)).1
  · obtain ⟨rfl, rfl⟩ | ⟨hne, hold⟩ := hset hb''
    · exact (houtside t ht).2.2
    · exact h.apart hold t ht
  · obtain ⟨rfl, rfl⟩ | ⟨hne₁, hold₁⟩ := hset hb₁ <;>
      obtain ⟨rfl, rfl⟩ | ⟨hne₂, hold₂⟩ := hset hb₂
    · exact absurd rfl hjk
    · exact (hacts.moves _ (h.batches hold₂) (h.alone hne₂ hb hold₂)).2.2
    · exact (hacts.moves _ (h.batches hold₁) (h.alone hne₁ hb hold₁)).2.2.symm
    · exact h.alone hjk hold₁ hold₂
  · rw [hcall]
    by_cases hj : i = j
    · subst hj
      rw [if_pos rfl, held_eq hself, hacts.value, held, hb]
      rfl
    · rw [if_neg hj]
      refine held_congr (List.getElem?_set_ne hj) fun b'' hb'' => ?_
      exact (hacts.moves _ (h.batches hb'') (h.alone hj hb hb'')).2.1
  · by_cases hj : i = j
    · subst hj
      obtain rfl : b = b'' := Option.some.inj (hb.symm.trans hb'')
      exact ⟨b', hself, hacts.room⟩
    · exact ⟨b'', (List.getElem?_set_ne hj).trans hb'', Nat.le_refl _⟩
  · obtain rfl : i = j := Option.some.inj (hon.symm.trans hon')
    obtain rfl : b = b'' := Option.some.inj (hb.symm.trans hb'')
    rw [held_eq hself, hacts.value] at hsize
    exact hacts.in_place hsize

section Steps

variable [EntrySource σ]

theorem own_does (h : Kept c) (m : Move UInt8) : Does c (.own m) (c.step grow (.own m)) := by
  have hm := Holder.step_stepped grow h.slices m
  refine does_apart h rfl hm.slices hm.fits (fun t ht => hm.reads t (h.outside ht)) hm.own
    (fun it hit => ⟨hm.fits _ (h.iters it hit).1, (h.iters it hit).2⟩) fun hb => ?_
  have hfits := h.batches hb
  refine ⟨hm.reads_apart h.slices hfits fun t ht => h.apart_slice hb ht, fun t ht => ?_⟩
  rcases List.mem_append.mp ht with ht | ht
  · exact hm.apart _ hfits (fun t ht => h.apart_slice hb ht) t ht
  · exact h.apart hb t (List.mem_append_right _ ht)

theorem NewIter_does (h : Kept c) (it : RegolithIter σ) (opts : IterOptions) :
    Does c (.NewIter it opts) (c.step grow (.NewIter it opts)) := by
  refine does_apart h rfl (List.prefix_refl _) (fun _ ht => ht) (fun _ _ _ => rfl) h.slices
    (fun it' hit => ?_) fun hb => ⟨rfl, fun t ht => ?_⟩
  · rcases List.mem_append.mp hit with hit | hit
    · exact h.iters it' hit
    · rw [List.mem_singleton.mp hit]
      exact ⟨nil_fits, rfl⟩
  · rw [List.map_append, ← List.append_assoc] at ht
    rcases List.mem_append.mp ht with ht | ht
    · exact h.apart hb t ht
    · rw [List.map_singleton, List.mem_singleton] at ht
      rw [ht]
      exact .inr (.inl rfl)

theorem iter_does (h : Kept c) {it : Iter σ} (hit : c.iters[i]? = some it) (call : CursorCall) :
    Does c (.iter i call) (c.step grow (.iter i call)) := by
  have hmem := List.mem_of_getElem? hit
  obtain ⟨hfits, hwhole⟩ := h.iters it hmem
  have hcall := it.call_answers hfits hwhole (it.buf.read c.mem) call
  obtain ⟨hbatch, hapart⟩ := hcall.batch hfits hwhole
  simp only [step, hit]
  refine does_apart h rfl (List.prefix_append _ _) (fun t ht => (hcall.grows t ht).1)
    (fun t ht _ => (hcall.grows t (h.outside ht)).2) (fun t ht => ?_) (fun it' hit' => ?_)
    fun hb => ⟨(hcall.grows _ (h.batches hb)).2, fun t ht => ?_⟩
  · rcases List.mem_append.mp ht with ht | ht
    · exact (hcall.grows t (h.slices t ht)).1
    · exact (hcall.handed t (by simpa using ht)).1
  · rcases List.mem_or_eq_of_mem_set hit' with hit' | rfl
    · obtain ⟨hfits', hwhole'⟩ := h.iters it' hit'
      exact ⟨(hcall.grows _ hfits').1, hwhole'⟩
    · exact hbatch
  · simp only [List.mem_append, List.mem_map] at ht
    rcases ht with (ht | ht) | ⟨it', hit', rfl⟩
    · exact h.apart_slice hb ht
    · exact (hcall.handed t (by simpa using ht)).2 _ (h.batches hb) (h.apart_iter hb hmem)
    · rcases List.mem_or_eq_of_mem_set hit' with hit' | rfl
      · exact h.apart_iter hb hit'
      · exact hapart _ (h.batches hb) (h.apart_iter hb hmem)

theorem step_does (h : Kept c) (s : Step σ) : Does c s (c.step grow s) := by
  cases s with
  | own m => exact own_does h m
  | zero => exact does_new h rfl nil_fits rfl fun t ht => ⟨ht, rfl, .inl rfl⟩
  | NewWriteBatch sizeHint =>
    refine does_new h rfl (make_fits ..) ?_ fun t ht =>
      make_moves (s := .nil) _ _ _ t ht (.inl rfl)
    exact congrArg (Go.WriteBatch.mk · 0) (make_read ..)
  | Set i key value =>
    simp only [step]
    cases hb : c.batches[i]? with
    | none => exact does_nothing h fun _ => by simp [call, hb]
    | some b =>
      cases hkey : c.slices[key]? with
      | none => exact does_nothing h fun _ => by simp [call, hkey]
      | some key' =>
        cases hvalue : c.slices[value]? with
        | none => exact does_nothing h fun _ => by simp [call, hvalue]
        | some value' =>
          have hk := List.mem_of_getElem? hkey
          have hv := List.mem_of_getElem? hvalue
          refine does_call h hb (set_acts (h.batches hb) (h.slices _ hk) (h.apart_slice hb hk)
            (h.slices _ hv) (h.apart_slice hb hv)) rfl fun j => ?_
          simp [call, hb, hkey, hvalue]
  | Delete i key =>
    simp only [step]
    cases hb : c.batches[i]? with
    | none => exact does_nothing h fun _ => by simp [call, hb]
    | some b =>
      cases hkey : c.slices[key]? with
      | none => exact does_nothing h fun _ => by simp [call, hkey]
      | some key' =>
        have hk := List.mem_of_getElem? hkey
        refine does_call h hb (delete_acts (h.batches hb) (h.slices _ hk) (h.apart_slice hb hk))
          rfl fun j => ?_
        simp [call, hb, hkey]
  | Reset i =>
    simp only [step]
    cases hb : c.batches[i]? with
    | none => exact does_nothing h fun _ => by simp [call, hb]
    | some b =>
      refine does_call h hb (reset_acts (h.batches hb)) rfl fun j => ?_
      simp [call, hb]
  | NewIter it opts => exact NewIter_does h it opts
  | iter i call =>
    cases hit : c.iters[i]? with
    | some it => exact iter_does h hit call
    | none =>
      simp only [step, hit]
      exact does_nothing h fun _ => rfl

end Steps

section Runs

variable [EntrySource σ] {steps later : List (Step σ)}

theorem run_append (c : Client σ) (steps later : List (Step σ)) :
    c.run grow (steps ++ later) = (c.run grow steps).run grow later := List.foldl_append

theorem run_kept (h : Kept c) (steps : List (Step σ)) : Kept (c.run grow steps) := by
  induction steps generalizing c with
  | nil => exact h
  | cons s steps ih => exact ih (step_does h s).kept

theorem run_held (h : Kept c) (i : Nat) (steps : List (Step σ)) :
    (c.run grow steps).held i = fill (c.held i) (c.calls grow i steps) := by
  induction steps generalizing c with
  | nil => rfl
  | cons s steps ih =>
    have hstep : Does c s (c.step grow s) := step_does h s
    rw [calls, fill, List.foldl_append]
    refine (ih hstep.kept).trans ?_
    rw [hstep.held]
    rfl

theorem run_room (h : Kept c) (hb : c.batches[i]? = some b) (steps : List (Step σ)) :
    ∃ b' : WriteBatch, (c.run grow steps).batches[i]? = some b' ∧ b.buf.cap ≤ b'.buf.cap := by
  induction steps generalizing c b with
  | nil => exact ⟨b, hb, Nat.le_refl _⟩
  | cons s steps ih =>
    have hstep : Does c s (c.step grow s) := step_does h s
    obtain ⟨b₁, hb₁, hroom₁⟩ := hstep.room hb
    obtain ⟨b₂, hb₂, hroom₂⟩ := ih hstep.kept hb₁
    exact ⟨b₂, hb₂, hroom₁.trans hroom₂⟩

-- A batch in memory holds what its calls put there, at the time of each. No call on a batch or
-- of an iterator changes what a slice of the code reads: only a write of its own does.
theorem batch_is_its_calls (grow : Nat → Nat → Nat) (steps : List (Step σ)) :
    (∀ i, (first.run grow steps).held i = fill .zero (first.calls grow i steps)) ∧
    ∀ pre s post, steps = pre ++ s :: post →
      let c := first.run grow pre
      let c' := first.run grow (pre ++ [s])
      c.slices <+: c'.slices ∧
        ∀ t ∈ c.slices, c.writes s ≠ some t.array → t.read c'.mem = t.read c.mem := by
  refine ⟨fun i => run_held first_kept i steps, fun pre s post _ => ?_⟩
  rw [run_append]
  have hstep : Does _ s ((first.run grow pre).step grow s) :=
    step_does (run_kept first_kept pre) s
  exact ⟨hstep.slices, fun t ht => hstep.reads t (List.mem_append_left _ ht)⟩

-- Where a batch has the room, its calls make no array.
theorem run_in_place (h : Kept c) (hb : c.batches[i]? = some b)
    (hon : ∀ s ∈ later, s.on = some i)
    (hsize : ∀ pre, pre <+: later → ((c.run grow pre).held i).Size ≤ b.buf.cap) :
    (c.run grow later).mem.length = c.mem.length := by
  induction later generalizing c b with
  | nil => rfl
  | cons s later ih =>
    have hstep : Does c s (c.step grow s) := step_does h s
    obtain ⟨b', hb', hroom⟩ := hstep.room hb
    refine (ih hstep.kept hb' (fun m hm => hon m (List.mem_cons_of_mem _ hm)) fun pre hpre => ?_).trans
      (hstep.in_place (hon s List.mem_cons_self) hb (hsize [s] ?_))
    · exact (hsize (s :: pre) (List.cons_prefix_cons.mpr ⟨rfl, hpre⟩)).trans hroom
    · exact List.cons_prefix_cons.mpr ⟨rfl, List.nil_prefix⟩

theorem run_of_none (hb : c.batches[i]? = none) (hon : ∀ s ∈ later, s.on = some i) :
    c.run grow later = c := by
  induction later with
  | nil => rfl
  | cons s later ih =>
    have hstep : c.step grow s = c := by
      have := hon s List.mem_cons_self
      cases s <;> simp_all [Step.on, step]
    rw [run, List.foldl_cons, hstep]
    exact ih fun m hm => hon m (List.mem_cons_of_mem _ hm)

omit [EntrySource σ] in
theorem held_size_le (h : Kept c) (hb : c.batches[i]? = some b) : (c.held i).Size ≤ b.buf.cap := by
  have hfits := h.batches hb
  rw [held_eq hb, Go.WriteBatch.Size, WriteBatch.value, hfits.length_read]
  exact hfits.len_le

theorem Roomy.le_cap {n : Nat} (h : Roomy grow steps i n)
    (hb : (first.run grow steps).batches[i]? = some b) : n ≤ b.buf.cap := by
  rcases h with ⟨front, ⟨rest, rfl⟩, hn⟩ | ⟨front, sizeHint, ⟨rest, rfl⟩, hi, hn⟩
  · have hkept : Kept (first.run grow front) := run_kept first_kept front
    rw [run_append] at hb
    cases hfront : (first.run grow front).batches[i]? with
    | none => simp [held, hfront, Go.WriteBatch.Size, Go.WriteBatch.zero] at hn; omega
    | some b₀ =>
      obtain ⟨b', hb', hroom⟩ := run_room hkept hfront rest
      obtain rfl := Option.some.inj (hb'.symm.trans hb)
      exact (hn.trans (held_size_le hkept hfront)).trans hroom
  · have hkept : Kept (first.run grow (front ++ [.NewWriteBatch sizeHint])) :=
      run_kept first_kept _
    rw [run_append] at hb
    have hmade : (first.run grow (front ++ [.NewWriteBatch sizeHint])).batches[i]? =
        some (WriteBatch.NewWriteBatch (first.run grow front).mem sizeHint).1 := by
      rw [run_append, ← hi]
      exact List.getElem?_concat_length ..
    obtain ⟨b', hb', hroom⟩ := run_room hkept hmade rest
    obtain rfl := Option.some.inj (hb'.symm.trans hb)
    simp only [WriteBatch.NewWriteBatch, Heap.make] at hroom
    omega

-- A batch that was made for as much, or that has held as much before, is filled again in place.
theorem refill_makes_nothing (steps later : List (Step σ)) (i : Nat)
    (hon : ∀ s ∈ later, s.on = some i)
    (hroom : ∀ pre, pre <+: later →
      Roomy grow steps i ((first.run grow (steps ++ pre)).held i).Size) :
    (first.run grow (steps ++ later)).mem.length = (first.run grow steps).mem.length := by
  rw [run_append]
  cases hb : (first.run grow steps).batches[i]? with
  | none => rw [run_of_none hb hon]
  | some b =>
    refine run_in_place (run_kept first_kept steps) hb hon fun pre hpre => ?_
    rw [← run_append]
    exact (hroom pre hpre).le_cap hb

end Runs

theorem refill_makes_nothing_hint :
    let steps : List (Step (Source (ListCursor noBad) (ListTxn noBad) (ListStream noBad))) :=
      [.NewWriteBatch 64, .own (.make [1, 2] 2)]
    let later := [.Set 0 0 0, .Reset 0, .Delete 0 0]
    (first.run (fun _ need => need) (steps ++ later)).mem.length =
      (first.run (fun _ need => need) steps).mem.length := by
  intro steps later
  refine refill_makes_nothing steps later 0 (by simp [later, Step.on]) fun pre hpre => ?_
  rw [← List.mem_inits] at hpre
  simp only [later, List.inits, List.map_cons, List.map_nil, List.mem_cons, List.not_mem_nil,
    or_false] at hpre
  refine .inr ⟨[], 64, by simp [steps], rfl, ?_⟩
  obtain rfl | rfl | rfl | rfl := hpre <;> decide

end Client

end Regolith.Go.InMemory
