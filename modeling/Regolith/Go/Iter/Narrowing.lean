import Regolith.Go.Iter.Walk

-- What a walk that reports its entries tells about the integers its frames and values
-- were measured with.
namespace Regolith.Go.Iter

open Ffi Ffi.RegolithIter

variable {σ : Type} [EntrySource σ] {it : Iter σ} {Cut : σ → Prop} {fin : Option Failure}
  {x : Item} {taken later xs : List Item}

theorem answer_found {result : Except Crash (Bool × Option GoError)} (h : answer result = .ok true) :
    result = .ok (true, none) := by
  unfold answer at h
  split at h
  · rw [Except.ok.inj h]
  · simp at h

theorem cut_of_map {buf key : Bytes} {e : entry} (h : (cut buf e).map some = .ok (some key)) :
    cut buf e = .ok key := by
  cases hcut : cut buf e with
  | error crash => simp [hcut, Except.map] at h
  | ok found => simpa [hcut, Except.map] using h

omit [EntrySource σ] in
theorem load_found {i : RegolithIter σ} {frame : Bytes}
    (h : (it.load i frame).1 = .ok (true, none)) :
    ∃ buf ents, buf <+: frame ∧ buf.length < 2 ^ 31 ∧ parse buf buf.length 0 [] = .ok ents ∧
      (it.load i frame).2 = { it with i := i, ents := ents, pos := 0, buf := buf } := by
  unfold load at *
  cases hbuf : GoBytes frame (.ofNat frame.length) with
  | error crash => simp [hbuf] at h
  | ok buf =>
      simp only [hbuf] at h ⊢
      cases hents : parse buf buf.length 0 [] with
      | error crash => simp [hents] at h
      | ok ents =>
          obtain ⟨hfront, hshort⟩ := GoBytes_ok hbuf
          exact ⟨buf, ents, hfront, hshort, hents, rfl⟩

-- Within a batch every entry is reached by a move that only counts on.
theorem held_finds (hlive : it.Live) (hpos : it.pos < it.ents.length)
    (h : (cursor : Pull (Iter σ) _ _).Finds xs (.ok true, it)) :
    (∀ (index : Nat) (x : Item), it.pos + index < it.ents.length → xs[index]? = some x →
        Reads (some x) { it with pos := it.pos + index }) ∧
      (cursor : Pull (Iter σ) _ _).Finds (xs.drop (it.ents.length - it.pos))
        (cursor.step { it with pos := it.ents.length - 1 }) := by
  induction xs generalizing it with
  | nil => exact ⟨by simp, by simp [Pull.Finds]⟩
  | cons x xs ih =>
      obtain ⟨-, hreads, hrest⟩ := h
      rcases (Nat.succ_le_of_lt hpos).lt_or_eq with hlt | heq
      · have hstep : (cursor : Pull (Iter σ) _ _).step it =
            (.ok true, { it with pos := it.pos + 1 }) := by
          simp [cursor, Next_held hlive hlt, answer]
        rw [hstep] at hrest
        have hnext : Live { it with pos := it.pos + 1 } := ⟨hlive.not_closed, hlive.keys_only⟩
        obtain ⟨hwithin, hafter⟩ := ih hnext hlt hrest
        refine ⟨fun index y hindex hy => ?_, ?_⟩
        · cases index with
          | zero =>
              obtain rfl : x = y := by simpa using hy
              exact hreads
          | succ index =>
              have hread := hwithin index y (by simp only; omega) (by simpa using hy)
              simpa [Nat.add_assoc, Nat.add_comm 1] using hread
        · have hcount : it.ents.length - it.pos = it.ents.length - (it.pos + 1) + 1 := by omega
          rw [hcount, List.drop_succ_cons]
          exact hafter
      · have hlast : it.ents.length - 1 = it.pos := by omega
        refine ⟨fun index y hindex hy => ?_, ?_⟩
        · obtain rfl : index = 0 := by omega
          obtain rfl : x = y := by simpa using hy
          exact hreads
        · have hcount : it.ents.length - it.pos = 1 := by omega
          rw [hcount, hlast]
          exact hrest

-- The first key of a batch is read back whole, or not at all.
theorem refill_first (hfin : ∀ failure ∈ fin, failure.status ≠ OK) (hlive : it.Live)
    (hawaits : Awaits Cut fin xs it.i) (hfound : it.refill.1 = .ok (true, none))
    (hreads : it.refill.2.Reads (some x)) : ∃ y ys, xs = y :: ys ∧ x.key = y.key := by
  cases xs with
  | nil =>
      cases fin with
      | none =>
          rw [(refill_end hawaits).1] at hfound
          simp at hfound
      | some failure =>
          rw [refill_failed (hfin failure rfl) hawaits] at hfound
          simp at hfound
  | cons y ys =>
      refine ⟨y, ys, rfl, ?_⟩
      have hmore := refill_more hlive hawaits
      obtain ⟨rest, htaken⟩ : ∃ rest, gathered it.keysOnly batchEntries 0 (y :: ys) = y :: rest := by
        have hfront := gathered_prefix it.keysOnly batchEntries 0 (y :: ys)
        have hnonempty := batch_ne_nil it.keysOnly y ys
        obtain ⟨z, zs, hcons⟩ := List.exists_cons_of_ne_nil hnonempty
        rw [hcons] at hfront
        exact ⟨zs, by rw [hcons, (List.cons_prefix_cons.mp hfront).1]⟩
      rw [htaken] at hmore
      rcases hmore with ⟨-, err, herr⟩ | ⟨hkeys, i, -, hrefill⟩
      · rw [herr] at hfound
        simp at hfound
      · rw [hrefill] at hfound hreads
        obtain ⟨buf, ents, hfront, hshort, hparse, hstate⟩ := load_found hfound
        rw [hstate] at hreads
        obtain ⟨e, hentry⟩ : ∃ e, ents[0]? = some e := by
          cases hents : ents[0]? with
          | some e => exact ⟨e, rfl⟩
          | none =>
              have hkey := hreads.1
              rw [Key_off hents] at hkey
              simp at hkey
        have hcut : cut buf e = .ok x.key := by
          have hkey := hreads.1
          rw [Key_of_entry hentry] at hkey
          exact cut_of_map hkey
        have hbuf : 0 < buf.length := by
          by_contra hempty
          obtain rfl : buf = [] := by simpa using hempty
          have hnil : ents = [] := by simpa [parse, eq_comm] using hparse
          simp [hnil] at hentry
        have hframe : buf <+: [] ++ (Radix.toLE 4 y.key.length ++ y.key) ++ key_frame rest := by
          simpa using hfront
        obtain ⟨hheader, rounds, hrounds⟩ := parse_inside hbuf hparse
        rw [hrounds] at hparse
        have hlocated := parse_located [] hframe (hkeys y (by simp)) hheader rounds []
        simp only [List.length_nil, Int.natCast_zero, List.nil_append] at hlocated hparse
        rw [hlocated] at hparse
        obtain ⟨more, rfl⟩ := parse_appends hparse
        obtain rfl : located 0 y.key = e := by simpa using hentry
        exact (cut_located_ok [] hframe hshort (hkeys y (by simp)) hheader hcut).1

-- A batch whose entries are found one by one holds as many of its keys as it has
-- entries, and these fit.
theorem parsed_finds (hlive : it.Live) (hpos : it.pos = 0) (hdone : it.done = false)
    (hhanded : HandedOver Cut fin it.keysOnly taken later it.i) (hkeys : Framable taken)
    (hbuf : it.buf <+: key_frame taken) (hshort : it.buf.length < 2 ^ 31)
    (hparse : parse it.buf it.buf.length 0 [] = .ok it.ents) (hfront : taken <+: x :: xs)
    (h : (cursor : Pull (Iter σ) _ _).Finds (x :: xs) (.ok true, it)) :
    it.ents.length ≤ taken.length ∧ (key_frame (taken.take it.ents.length)).length < 2 ^ 31 ∧
      ValuesFit it.keysOnly (taken.take it.ents.length) ∧
      ∃ after : Iter σ, after = { it with pos := it.ents.length - 1 } ∧
        (cursor : Pull (Iter σ) _ _).Finds ((x :: xs).drop it.ents.length)
          (answer after.refill.1, after.refill.2) := by
  have hsome : it.pos < it.ents.length := by
    by_contra hempty
    have hkey := h.2.1.1
    rw [Key_off (List.getElem?_eq_none (not_lt.mp hempty))] at hkey
    simp at hkey
  obtain ⟨hwithin, hafter⟩ := held_finds hlive hsome h
  simp only [hpos, Nat.zero_add, Nat.sub_zero] at hwithin hafter
  have hread (index : Nat) (e : entry) (y : Item) (he : it.ents[index]? = some e)
      (hy : taken[index]? = some y) : Reads (some y) { it with pos := index } := by
    apply hwithin index y (List.getElem?_eq_some_iff.mp he).1
    obtain ⟨rest, hrest⟩ := hfront
    rw [← hrest, List.getElem?_append_left (List.getElem?_eq_some_iff.mp hy).1, hy]
  have hcut (index : Nat) (e : entry) (y : Item)
      (he : it.ents[([] : List entry).length + index]? = some e) (hy : taken[index]? = some y) :
      cut it.buf e = .ok y.key := by
    rw [List.length_nil, Nat.zero_add] at he
    have hkey := (hread index e y he hy).1
    rw [Key_of_entry he] at hkey
    exact cut_of_map hkey
  obtain ⟨count, hcount, hlength, hframe⟩ :=
    parse_conforms [] hbuf hshort (by simp) hkeys hparse hcut
  simp only [List.length_nil, Nat.zero_add, List.nil_append] at hlength hframe
  have hrefill : Next { it with pos := it.ents.length - 1 } =
      refill { it with pos := it.ents.length - 1 } :=
    Next_refill ⟨hlive.not_closed, hlive.keys_only⟩ (by simp only; omega) hdone
  refine ⟨hlength ▸ hcount, ?_, ?_, _, rfl, hrefill ▸ hafter⟩
  · rw [hlength, ← hframe]
    exact hshort
  · intro hvalues y hy
    obtain ⟨index, hy⟩ := List.getElem?_of_mem hy
    have hindex : index < it.ents.length := by
      have hlt := (List.getElem?_eq_some_iff.mp hy).1
      rw [List.length_take] at hlt
      omega
    rw [List.getElem?_take_of_lt hindex] at hy
    have hvalue := (hread index _ y (List.getElem?_eq_getElem hindex) hy).2
    exact (Value_iff { it with pos := index } hhanded.batch_values hhanded.batch_count hindex
      hy).mp hvalue hvalues

-- Keys lost at the end of a batch would be found missing by the move after it.
theorem taken_whole (hfin : ∀ failure ∈ fin, failure.status ≠ OK) (hlive : it.Live)
    (hawaits : Awaits Cut fin (xs.drop taken.length) it.i) (hfront : taken <+: xs)
    (hdistinct : (xs.map (·.key)).Nodup) {count : Nat} (hcount : count ≤ taken.length)
    (h : (cursor : Pull (Iter σ) _ _).Finds (xs.drop count) (answer it.refill.1, it.refill.2)) :
    count = taken.length := by
  by_contra hne
  have hlt : count < taken.length := by omega
  have hlength := hfront.length_le
  rw [List.drop_eq_getElem_cons (by omega)] at h
  obtain ⟨y, ys, hdrop, hkey⟩ := refill_first hfin hlive hawaits (answer_found h.1) h.2.1
  have hy : xs[taken.length]? = some y := by
    rw [← List.head?_drop, hdrop]
    rfl
  obtain ⟨hend, rfl⟩ := List.getElem?_eq_some_iff.mp hy
  have hdiffer := List.pairwise_iff_getElem.mp hdistinct count taken.length
    (by simpa using (by omega)) (by simpa using hend) hlt
  exact hdiffer (by simpa using hkey)

-- A walk that finds all its entries has taken batches that fit, of values that fit.
theorem fits_of_finds (hfin : ∀ failure ∈ fin, failure.status ≠ OK) (hlive : it.Live)
    (hdone : it.done = false) (hawaits : Awaits Cut fin xs it.i) (hdistinct : (xs.map (·.key)).Nodup)
    (h : (cursor : Pull (Iter σ) _ _).Finds xs (answer it.refill.1, it.refill.2)) :
    BatchesFit it.keysOnly xs ∧ ValuesFit it.keysOnly xs := by
  -- Each batch leaves less to find.
  induction hsize : xs.length using Nat.strongRecOn generalizing xs it with
  | ind n ih =>
      cases xs with
      | nil => exact ⟨.nil, by simp [ValuesFit]⟩
      | cons x xs =>
          have hfound := answer_found h.1
          have hmore := refill_more hlive hawaits
          have hfront := gathered_prefix it.keysOnly batchEntries 0 (x :: xs)
          have hnonempty := batch_ne_nil it.keysOnly x xs
          have hbatch := @BatchesFit.batch it.keysOnly (x :: xs)
          generalize gathered it.keysOnly batchEntries 0 (x :: xs) = taken at *
          rcases hmore with ⟨-, err, herr⟩ | ⟨hkeys, i, hhanded, hrefill⟩
          · rw [herr] at hfound
            simp at hfound
          · have hlive' := hlive.refill
            rw [hrefill] at h hfound hlive'
            obtain ⟨buf, ents, hbuf, hshort, hparse, hstate⟩ := load_found hfound
            rw [hfound, hstate] at h
            rw [hstate] at hlive'
            obtain ⟨hcount, hfits, hvalues, after, hafter, hrest⟩ :=
              parsed_finds hlive' rfl hdone hhanded hkeys hbuf hshort hparse hfront h
            have hlives : after.Live := hafter ▸ ⟨hlive'.not_closed, hlive'.keys_only⟩
            have hcoming : Awaits Cut fin ((x :: xs).drop taken.length) after.i :=
              hafter ▸ awaits_of_between hhanded.between
            have hwhole := taken_whole hfin hlives hcoming hfront hdistinct hcount hrest
            simp only [hwhole, List.take_length] at hfits hvalues hrest
            have hless : ((x :: xs).drop taken.length).length < n := by
              have hpos := List.length_pos_of_ne_nil hnonempty
              rw [List.length_drop, ← hsize]
              simp only [List.length_cons]
              omega
            have hdone' : after.done = false := hafter ▸ hdone
            have hsublist : (((x :: xs).drop taken.length).map (·.key)).Nodup :=
              hdistinct.sublist ((List.drop_sublist _ _).map _)
            obtain ⟨hbatches, hlater⟩ := ih _ hless hlives hdone' hcoming hsublist hrest rfl
            rw [hafter] at hbatches hlater
            refine ⟨hbatch hfits hbatches, fun hkeysOnly y hy => ?_⟩
            obtain ⟨rest, hsplit⟩ := hfront
            rw [← hsplit, List.drop_left] at hlater
            rw [← hsplit] at hy
            rcases List.mem_append.mp hy with hy | hy
            · exact hvalues hkeysOnly y hy
            · exact hlater hkeysOnly y hy

end Regolith.Go.Iter
