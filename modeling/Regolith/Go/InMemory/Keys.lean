import Regolith.Go.InMemory.Theorems

-- The keys of an iterator, which are parts of its batch: each stays what it was for as long as
-- the code keeps it, and no step of the code disturbs the iterator.
namespace Regolith.Go.InMemory

open Ffi Memory Slice

variable {σ : Type} [EntrySource σ] {grow : Nat → Nat → Nat}

-- What a step makes of iterators that have their batches to themselves.
def Step.alone (its : List (Go.Iter σ)) : Step σ → List (Go.Iter σ)
  | .NewIter i opts => its ++ [.opened i opts]
  | .iter i call => its.modify i fun it => (call.run it).2
  | _ => its

namespace Client

-- The iterators that there would be.
def alone (steps : List (Step σ)) : List (Go.Iter σ) := steps.foldl Step.alone []

-- The arrays that the code itself writes to, in order.
def written (grow : Nat → Nat → Nat) (c : Client σ) : List (Step σ) → List Nat
  | [] => []
  | s :: steps => (c.writes s).toList ++ written grow (c.step grow s) steps

section Tracks

variable {c c' : Client σ} {s : Step σ} {its : List (Go.Iter σ)} {arrays : List Nat}

omit [EntrySource σ] in
theorem Does.stays (hd : Does c s c') (h : Kept c) {t : Slice} (ht : t ∈ c.outside)
    (hw : t.cap ≠ 0 → c.writes s ≠ some t.array) : t.read c'.mem = t.read c.mem := by
  by_cases hcap : t.cap = 0
  · have hfits := h.outside ht
    rw [read_of_cap_eq_zero hfits hcap, read_of_cap_eq_zero hfits hcap]
  · exact hd.reads t ht (hw hcap)

-- What the code may have written to a batch is in its array.
def Clean (arrays : List Nat) (t : Slice) : Prop := t.cap ≠ 0 → t.array ∉ arrays

theorem Clean.left {arrays' : List Nat} {t : Slice} (h : Clean (arrays ++ arrays') t) :
    Clean arrays t :=
  fun hcap hmem => h hcap (List.mem_append_left _ hmem)

theorem Clean.right {arrays' : List Nat} {t : Slice} (h : Clean (arrays ++ arrays') t) :
    Clean arrays' t :=
  fun hcap hmem => h hcap (List.mem_append_right _ hmem)

-- Each iterator is the one that there would be, but for its batch if the code has written there.
structure Tracks (c : Client σ) (its : List (Go.Iter σ)) (arrays : List Nat) : Prop where
  kept : Kept c
  length : its.length = c.iters.length
  alone : ∀ {i : Nat} {it : Iter σ}, c.iters[i]? = some it →
    ∃ buf, its[i]? = some (it.holding buf) ∧ (Clean arrays it.buf → it.buf.read c.mem = buf)

omit [EntrySource σ] in
theorem first_tracks : Tracks (first : Client σ) [] [] :=
  ⟨first_kept, rfl, fun h => by simp [first] at h⟩

omit [EntrySource σ] in
-- The iterators that a step leaves as they are.
theorem Tracks.same (h : Tracks c its arrays) (hd : Does c s c') {i : Nat} {it : Iter σ}
    (hit : c.iters[i]? = some it) :
    ∃ buf, its[i]? = some (it.holding buf) ∧
      (Clean (arrays ++ (c.writes s).toList) it.buf → it.buf.read c'.mem = buf) := by
  obtain ⟨buf, halone, hread⟩ := h.alone hit
  refine ⟨buf, halone, fun hclean => ?_⟩
  have hmem : it.buf ∈ c.outside :=
    List.mem_append_right _ (List.mem_map_of_mem (List.mem_of_getElem? hit))
  rw [hd.stays h.kept hmem fun hcap hw => hclean.right hcap (by simp [hw]), hread hclean.left]

omit [EntrySource σ] in
theorem Tracks.step_other (h : Tracks c its arrays) (hd : Does c s c') (hiters : c'.iters = c.iters) :
    Tracks c' its (arrays ++ (c.writes s).toList) :=
  ⟨hd.kept, by rw [hiters, h.length], fun hit => h.same hd (hiters ▸ hit)⟩

theorem Tracks.step_iter (h : Tracks c its arrays) {i : Nat} {it : Iter σ}
    (hit : c.iters[i]? = some it) (call : CursorCall) :
    Tracks (c.step grow (.iter i call)) ((Step.iter i call).alone its) arrays := by
  have hd : Does c (.iter i call) (c.step grow (.iter i call)) := iter_does h.kept hit call
  obtain ⟨hfits, hwhole⟩ := h.kept.iters it (List.mem_of_getElem? hit)
  obtain ⟨buf, halone, hread⟩ := h.alone hit
  have hcall := it.call_answers hfits hwhole buf call
  have hiters : (c.step grow (.iter i call)).iters = c.iters.set i (it.call c.mem call).it := by
    simp [step, hit]
  have hmem : (c.step grow (.iter i call)).mem = (it.call c.mem call).mem := by
    simp [step, hit]
  refine ⟨hd.kept, by simp [Step.alone, hiters, h.length], fun {j it'} hit' => ?_⟩
  rw [hiters] at hit'
  by_cases hj : i = j
  · subst hj
    rw [List.getElem?_set_self (List.getElem?_eq_some_iff.mp hit).1] at hit'
    obtain rfl := Option.some.inj hit'
    obtain ⟨buf', htwin, hbuf⟩ := hcall.twin
    refine ⟨buf', by simp [Step.alone, halone, htwin], fun hclean => ?_⟩
    rw [hmem]
    obtain ⟨hsame, rfl⟩ | ⟨-, hnew⟩ := hbuf
    · rw [hsame] at hclean ⊢
      rw [(hcall.grows _ hfits).2, hread hclean]
    · exact hnew
  · rw [List.getElem?_set_ne hj] at hit'
    obtain ⟨buf', halone', hread'⟩ := h.same hd hit'
    refine ⟨buf', ?_, fun hclean => hread' (by simpa [writes] using hclean)⟩
    simp [Step.alone, hj, halone']

theorem Tracks.step_new (h : Tracks c its arrays) (it : RegolithIter σ) (opts : IterOptions) :
    Tracks (c.step grow (.NewIter it opts)) ((Step.NewIter it opts).alone its) arrays := by
  have hd : Does c (.NewIter it opts) (c.step grow (.NewIter it opts)) :=
    NewIter_does h.kept it opts
  refine ⟨hd.kept, by simp [Step.alone, step, h.length], fun {j it'} hit' => ?_⟩
  simp only [step, List.getElem?_append] at hit'
  split_ifs at hit' with hj
  · obtain ⟨buf, halone, hread⟩ := h.same hd hit'
    refine ⟨buf, ?_, fun hclean => hread (by simpa [writes] using hclean)⟩
    rw [Step.alone, List.getElem?_append_left (h.length ▸ hj), halone]
  · obtain ⟨hlt, rfl⟩ := List.getElem?_eq_some_iff.mp hit'
    simp only [List.length_singleton] at hlt
    obtain rfl : j = c.iters.length := by omega
    refine ⟨[], ?_, fun _ => ?_⟩
    · simp [Step.alone, ← h.length, Iter.opened, Iter.holding, Go.Iter.opened]
    · simp [Iter.opened, Slice.read, Slice.nil]

theorem step_tracks (h : Tracks c its arrays) (s : Step σ) :
    Tracks (c.step grow s) (s.alone its) (arrays ++ (c.writes s).toList) := by
  have hd : Does c s (c.step grow s) := step_does h.kept s
  cases s with
  | NewIter it opts => simpa [writes] using h.step_new it opts
  | iter i call =>
    cases hit : c.iters[i]? with
    | some it => simpa [writes] using h.step_iter hit call
    | none =>
      have hlength : its.length ≤ i := h.length ▸ List.getElem?_eq_none_iff.mp hit
      simpa [step, hit, Step.alone, List.modify_eq_self hlength, writes] using h
  | Set => exact h.step_other hd (by simp only [step]; split <;> rfl)
  | Delete => exact h.step_other hd (by simp only [step]; split <;> rfl)
  | Reset => exact h.step_other hd (by simp only [step]; split <;> rfl)
  | own | zero | NewWriteBatch => exact h.step_other hd rfl

theorem run_tracks (h : Tracks c its arrays) (steps : List (Step σ)) :
    Tracks (c.run grow steps) (steps.foldl Step.alone its) (arrays ++ c.written grow steps) := by
  induction steps generalizing c its arrays with
  | nil => simpa [run, written] using h
  | cons s steps ih =>
    rw [written, ← List.append_assoc]
    exact ih (step_tracks h s)

end Tracks

section Runs

variable {c : Client σ} {steps : List (Step σ)}

theorem written_append (c : Client σ) (pre post : List (Step σ)) :
    c.written grow (pre ++ post) = c.written grow pre ++ (c.run grow pre).written grow post := by
  induction pre generalizing c with
  | nil => rfl
  | cons s pre ih =>
    rw [List.cons_append, written, written, ih, List.append_assoc]
    rfl

-- A slice stays what it is, where the code does not write to its array.
theorem run_stays (h : Kept c) {n : Nat} {t : Slice} (ht : c.slices[n]? = some t)
    (hclean : Clean (c.written grow steps) t) :
    (c.run grow steps).slices[n]? = some t ∧ t.read (c.run grow steps).mem = t.read c.mem := by
  induction steps generalizing c with
  | nil => exact ⟨ht, rfl⟩
  | cons s steps ih =>
    have hd : Does c s (c.step grow s) := step_does h s
    have ht' : (c.step grow s).slices[n]? = some t := by
      obtain ⟨rest, hrest⟩ := hd.slices
      rw [← hrest, List.getElem?_append_left (List.getElem?_eq_some_iff.mp ht).1, ht]
    obtain ⟨hlast, hread⟩ := ih hd.kept ht' hclean.right
    refine ⟨hlast, hread.trans ?_⟩
    exact hd.stays h (List.mem_append_left _ (List.mem_of_getElem? ht)) fun hcap hw =>
      hclean.left hcap (by simp [hw])

-- Whatever the code does with the slices that it has, an iterator goes on as it would without
-- it, and a key that it hands out is the one of the entry, and stays it. That is so while the
-- code does not write to the array of the batch, and an append to a key of it is such a write.
theorem keys_stay (grow : Nat → Nat → Nat) (pre : List (Step σ)) (i : Nat) {alone : Go.Iter σ}
    (halone : (Client.alone pre)[i]? = some alone) :
    let c := first.run grow pre
    ∃ it, c.iters[i]? = some it ∧
      (∀ call, call ≠ .Key → (it.call c.mem call).outcome = (call.run alone).1) ∧
      ∀ post, Clean (first.written grow (pre ++ .iter i .Key :: post)) it.buf →
        let last := first.run grow (pre ++ .iter i .Key :: post)
        (it.call c.mem .Key).outcome = .key alone.Key ∧
          ∀ key, alone.Key = .ok (some key) →
            ∃ t, last.slices[c.slices.length]? = some t ∧ t.read last.mem = key := by
  intro c
  have htracks : Tracks c (Client.alone pre) ([] ++ first.written grow pre) :=
    run_tracks first_tracks pre
  rw [List.nil_append] at htracks
  have hlt : i < c.iters.length := by
    rw [← htracks.length]
    exact (List.getElem?_eq_some_iff.mp halone).1
  obtain ⟨it, hit⟩ : ∃ it, c.iters[i]? = some it := ⟨_, List.getElem?_eq_getElem hlt⟩
  obtain ⟨buf, htwin, hread⟩ := htracks.alone hit
  obtain rfl : it.holding buf = alone := Option.some.inj (htwin.symm.trans halone)
  obtain ⟨hfits, hwhole⟩ := htracks.kept.iters it (List.mem_of_getElem? hit)
  refine ⟨it, hit, fun call hcall => ?_, fun post hclean => ?_⟩
  · exact (it.call_answers hfits hwhole buf call).outcome fun heq => absurd heq hcall
  · intro last
    rw [written_append] at hclean
    have hkey : it.Key.map (·.map (·.read c.mem)) = (it.holding buf).Key :=
      Iter.Key_reads hfits hwhole (hread hclean.left)
    refine ⟨congrArg Outcome.key hkey, fun key hsome => ?_⟩
    rw [← hkey] at hsome
    cases ht : it.Key with
    | error crash => simp [ht, Except.map] at hsome
    | ok found =>
      cases found with
      | none => simp [ht, Except.map] at hsome
      | some t =>
        simp only [ht, Except.map, Option.map_some, Except.ok.injEq, Option.some.injEq] at hsome
        obtain ⟨-, harray, hcap, -⟩ := Iter.Key_within hfits ht
        have hslices : (c.step grow (.iter i .Key)).slices[c.slices.length]? = some t := by
          simp [step, hit, Iter.call, ht, Except.toOption]
        have hmem : (c.step grow (.iter i .Key)).mem = c.mem := by
          simp [step, hit, Iter.call]
        have hafter : Clean ((c.step grow (.iter i .Key)).written grow post) t := by
          intro hne
          rw [harray]
          exact hclean.right (by omega)
        obtain ⟨hlast, hstays⟩ := run_stays (step_does htracks.kept _).kept hslices hafter
        have hrun : last = (c.step grow (.iter i .Key)).run grow post := run_append ..
        rw [hmem, hsome] at hstays
        rw [hrun]
        exact ⟨t, hlast, hstays⟩

end Runs

section Example

def twoKeys : Step (Source (ListCursor noBad) (ListTxn noBad) (ListStream noBad)) :=
  let opts : IterOptions := ⟨[], [], [], false, false⟩
  .NewIter (ListCursor.iter noBad [([1], [10]), ([2], [])] opts.bounds) opts

-- An append to the first key is put over the second one, which is handed out after it.
example :
    let last := first.run (fun _ need => need)
      [twoKeys, .iter 0 .Next, .iter 0 .Key, .own (.append 0 [1, 0, 0, 0, 9]), .iter 0 .Next,
        .iter 0 .Key]
    last.slices.map (·.read last.mem) = [[1], [1, 1, 0, 0, 0, 9], [9]] := rfl

end Example

-- A key outlives its batch, and what the code writes elsewhere.
theorem keys_stay_next :
    let last := first.run (fun _ need => need)
      [twoKeys, .iter 0 .Next, .iter 0 .Key, .own (.make [7] 8), .own (.append 1 [8, 9]),
        .iter 0 .Reset, .iter 0 .Next]
    ∃ t, last.slices[0]? = some t ∧ t.read last.mem = [1] := by
  intro last
  obtain ⟨it, hit, -, hkey⟩ := keys_stay (fun _ need => need) [twoKeys, .iter 0 .Next] 0 rfl
  obtain rfl := Option.some.inj hit
  refine (hkey [.own (.make [7] 8), .own (.append 1 [8, 9]), .iter 0 .Reset, .iter 0 .Next] ?_).2
    [1] rfl
  intro _
  decide +kernel

end Client

end Regolith.Go.InMemory
