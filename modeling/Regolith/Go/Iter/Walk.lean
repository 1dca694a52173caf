import Regolith.Go.Iter.Theorems

-- What the iterator reports while its frames and values fit the integers they are
-- measured with.
namespace Regolith.Go.Iter

open Ffi Ffi.RegolithIter

variable {σ : Type} [EntrySource σ] {it : Iter σ} {Cut : σ → Prop} {fin : Option Failure}
  {x : Item} {taken later xs : List Item} {current : Option Item}

section Reading

omit [EntrySource σ] in
theorem Key_of_entry {e : entry} (h : it.ents[it.pos]? = some e) :
    it.Key = (cut it.buf e).map some := by
  simp only [Key, h]
  rfl

omit [EntrySource σ] in
theorem Key_off (h : it.ents[it.pos]? = none) : it.Key = .ok none := by
  simp only [Key, h]

omit [EntrySource σ] in
-- The value of an entry comes back, unless its length is narrowed on the way.
theorem Value_iff (it : Iter σ) (hvalues : it.i.batch_values = retained_values it.keysOnly taken)
    (hcount : it.i.batch_count = taken.length) (hpos : it.pos < it.ents.length)
    (hx : taken[it.pos]? = some x) :
    it.Value = .ok (lent it.keysOnly x, none) ↔
      (it.keysOnly = false → x.value.length < 2 ^ 31) := by
  cases hkeys : it.keysOnly with
  | true => simp [Value, hkeys, lent]
  | false =>
      have hlt : it.pos < taken.length := (List.getElem?_eq_some_iff.mp hx).1
      have hvalue : it.i.batch_values[it.pos]? = some x.value := by
        simp [hvalues, hkeys, retained_values, hx]
      have hread : it.Value = if x.value.length = 0 then .ok (none, none)
          else (GoBytes x.value (.ofNat x.value.length)).map (some ·, none) := by
        simp [Value, hkeys, hpos.not_ge, regolith_iter_batch_value, hcount, hlt.not_ge, hvalue]
      rw [hread, ← GoBytes_eq_iff]
      by_cases hempty : x.value = []
      · simp [lent, hempty, GoBytes]
      · have hlength : x.value.length ≠ 0 := by simpa using hempty
        simp only [hlength, if_false, lent, hempty, Bool.false_eq_true, or_self]
        cases GoBytes x.value (.ofNat x.value.length) <;> simp [Except.map]

end Reading

-- A batch that has been parsed as it was framed.
structure Loaded (Cut : σ → Prop) (fin : Option Failure) (taken later : List Item)
    (it : Iter σ) : Prop where
  handed : HandedOver Cut fin it.keysOnly taken later it.i
  ents : it.ents = offsets 0 taken
  buf : it.buf = key_frame taken
  short : (key_frame taken).length < 2 ^ 31
  not_done : it.done = false

-- Where the iterator stands, and what is still to come: nothing is loaded, or it is
-- within a batch, or the walk is over.
inductive Ready (Cut : σ → Prop) (fin : Option Failure) :
    Option Item → List Item → Iter σ → Prop where
  | awaiting {xs : List Item} {it : Iter σ} (hents : it.ents = []) (hdone : it.done = false)
      (hawaits : Awaits Cut fin xs it.i) (hfit : BatchesFit it.keysOnly xs) :
      Ready Cut fin none xs it
  | within {taken later : List Item} {it : Iter σ} {x : Item}
      (hloaded : Loaded Cut fin taken later it) (hx : taken[it.pos]? = some x)
      (hfit : BatchesFit it.keysOnly later) :
      Ready Cut fin (some x) (taken.drop (it.pos + 1) ++ later) it
  | ended {it : Iter σ} (hents : it.ents = []) (hdone : it.done = true) (hfin : fin = none) :
      Ready Cut fin none [] it

-- What a move with the entries `xs` to come leads to.
def Arrives (Cut : σ → Prop) (fin : Option Failure) (xs : List Item)
    (result : Except Crash (Bool × Option GoError) × Iter σ) : Prop :=
  match xs with
  | x :: xs => result.1 = .ok (true, none) ∧ Ready Cut fin (some x) xs result.2
  | [] => result.1 = ending fin ∧ (fin = none → Ready Cut fin none [] result.2)

theorem Loaded.at_pos (h : Loaded Cut fin taken later it) (hx : taken[it.pos]? = some x) :
    it.pos < it.ents.length ∧ it.Key = .ok (some x.key) := by
  have hlt : it.pos < taken.length := (List.getElem?_eq_some_iff.mp hx).1
  obtain ⟨e, he, hcut⟩ := cut_offsets [] (by simpa using h.short) hx
  refine ⟨by simpa [h.ents] using hlt, ?_⟩
  rw [List.length_nil, ← h.ents] at he
  rw [List.nil_append, ← h.buf] at hcut
  rw [Key_of_entry he, hcut]
  rfl

theorem Ready.reads (h : Ready Cut fin current xs it)
    (hvalue : ∀ x ∈ current, it.keysOnly = false → x.value.length < 2 ^ 31) :
    it.Reads current := by
  cases h with
  | awaiting hents => exact ⟨Key_off (by simp [hents]), by simp [Value, hents]⟩
  | ended hents => exact ⟨Key_off (by simp [hents]), by simp [Value, hents]⟩
  | within hloaded hx =>
      obtain ⟨hpos, hkey⟩ := hloaded.at_pos hx
      exact ⟨hkey, (Value_iff _ hloaded.handed.batch_values hloaded.handed.batch_count hpos hx).mpr
        (hvalue _ rfl)⟩

omit [EntrySource σ] in
-- A frame that fits is loaded as it is.
theorem load_short {i : RegolithIter σ} (hshort : (key_frame taken).length < 2 ^ 31) :
    it.load i (key_frame taken) =
      (.ok (true, none),
        { it with i := i, ents := offsets 0 taken, pos := 0, buf := key_frame taken }) := by
  have hrounds : taken.length ≤ (key_frame taken).length := by
    clear hshort
    induction taken with
    | nil => simp
    | cons x xs ih =>
        simp only [key_frame_cons, List.length_append, Radix.length_toLE, List.length_cons]
        omega
  have hparse := parse_key_frame [] (by simpa using hshort) hrounds []
  simp only [List.nil_append, List.length_nil, Int.natCast_zero] at hparse
  simp only [load, GoBytes_of_lt hshort, hparse]

theorem refill_arrives (hfin : ∀ failure ∈ fin, failure.status ≠ OK) (hlive : it.Live)
    (hdone : it.done = false) (hawaits : Awaits Cut fin xs it.i)
    (hfit : BatchesFit it.keysOnly xs) : Arrives Cut fin xs it.refill := by
  cases xs with
  | nil =>
      cases fin with
      | none =>
          obtain ⟨hresult, hents, hover⟩ := refill_end hawaits
          exact ⟨hresult, fun _ => .ended hents hover rfl⟩
      | some failure => exact ⟨refill_failed (hfin failure rfl) hawaits, fun h => by simp at h⟩
  | cons x xs =>
      have hmore := refill_more hlive hawaits
      have htaken := batch_ne_nil it.keysOnly x xs
      have hfront := gathered_prefix it.keysOnly batchEntries 0 (x :: xs)
      cases hfit with
      | batch hshort hrest =>
          generalize gathered it.keysOnly batchEntries 0 (x :: xs) = taken at *
          rcases hmore with ⟨hlong, -⟩ | ⟨-, i, hhanded, hrefill⟩
          · exact absurd (framable_of_short hshort) hlong
          · obtain ⟨later, hsplit⟩ := hfront
            obtain ⟨y, ys, rfl⟩ := List.exists_cons_of_ne_nil htaken
            obtain ⟨rfl, rfl⟩ := List.cons.inj hsplit
            rw [← hsplit, List.drop_left] at hhanded hrest
            rw [hrefill, load_short hshort]
            have hloaded : Loaded Cut fin (y :: ys) later
                { it with
                  i := i, ents := offsets 0 (y :: ys), pos := 0, buf := key_frame (y :: ys) } :=
              ⟨hhanded, rfl, rfl, hshort, hdone⟩
            exact ⟨rfl, .within hloaded rfl hrest⟩

theorem Next_arrives (hfin : ∀ failure ∈ fin, failure.status ≠ OK) (hlive : it.Live)
    (h : Ready Cut fin current xs it) : Arrives Cut fin xs it.Next := by
  cases h with
  | awaiting hents hdone hawaits hfit =>
      rw [Next_refill hlive (by simp [hents]) hdone]
      exact refill_arrives hfin hlive hdone hawaits hfit
  | ended hents hdone hnone =>
      subst hnone
      rw [Next_done hlive hents hdone]
      exact ⟨rfl, fun _ => .ended hents hdone rfl⟩
  | @within taken later _ x hloaded hx hfit =>
      obtain ⟨hpos, -⟩ := hloaded.at_pos hx
      have hlength : it.ents.length = taken.length := by rw [hloaded.ents, length_offsets]
      rcases hdrop : taken.drop (it.pos + 1) with _ | ⟨y, ys⟩
      · have hend : taken.length ≤ it.pos + 1 := List.drop_eq_nil_iff.mp hdrop
        rw [Next_refill hlive (hlength.trans_le hend) hloaded.not_done]
        exact refill_arrives hfin hlive hloaded.not_done (awaits_of_between hloaded.handed.between)
          hfit
      · have hy : taken[it.pos + 1]? = some y := by
          rw [← List.head?_drop, hdrop]
          rfl
        have hys : taken.drop (it.pos + 1 + 1) = ys := by
          rw [← List.tail_drop, hdrop]
          rfl
        have hlt : it.pos + 1 < it.ents.length := by
          rw [hlength]
          exact (List.getElem?_eq_some_iff.mp hy).1
        have hnext : Loaded Cut fin taken later { it with pos := it.pos + 1 } :=
          ⟨hloaded.handed, hloaded.ents, hloaded.buf, hloaded.short, hloaded.not_done⟩
        rw [Next_held hlive hlt, ← hys]
        exact ⟨rfl, .within hnext hy hfit⟩

-- After a clean end nothing comes, however often it is asked for.
theorem Ready.over_cursor (hlive : it.Live) (h : Ready Cut none none [] it) :
    (cursor : Pull (Iter σ) _ _).Over it := by
  apply Pull.over_of_invariant fun it : Iter σ => it.Live ∧ Ready Cut none none [] it
  · rintro it ⟨-, hready⟩
    exact hready.reads (by simp)
  · rintro it ⟨hlive, hready⟩
    have hnext : it.Next.1 = _ := (Next_arrives (by simp) hlive hready).1
    simp [cursor, hnext, ending, answer]
  · rintro it ⟨hlive, hready⟩
    exact ⟨hlive.Next, (Next_arrives (by simp) hlive hready).2 rfl⟩
  · exact ⟨hlive, h⟩

-- The walk from a move: each entry, read with its own key and value, and then the end.
theorem Arrives.yields (hfin : ∀ failure ∈ fin, failure.status ≠ OK)
    {result : Except Crash (Bool × Option GoError) × Iter σ} (hlive : result.2.Live)
    (h : Arrives Cut fin xs result) (hvalues : ValuesFit result.2.keysOnly xs) :
    (cursor : Pull (Iter σ) _ _).Yields (fin.map fun failure => .ok (false, surfaced failure)) xs
      (answer result.1, result.2) := by
  induction xs generalizing result with
  | nil =>
      obtain ⟨hresult, hready⟩ := h
      cases fin with
      | none => exact ⟨by rw [hresult]; rfl, (hready rfl).over_cursor hlive⟩
      | some failure =>
          obtain ⟨err, herr⟩ := Option.isSome_iff_exists.mp (surfaced_isSome (hfin failure rfl))
          refine ⟨?_, trivial⟩
          simp only [hresult, ending, Option.bind_some, herr, answer]
  | cons x xs ih =>
      obtain ⟨hresult, hready⟩ := h
      obtain ⟨hvalue, hrest⟩ := hvalues.cons
      refine ⟨by rw [hresult]; rfl, hready.reads (by rintro _ ⟨⟩; exact hvalue), ?_⟩
      have hnext := Next_arrives hfin hlive hready
      exact ih hlive.Next hnext (by rwa [(Next_frame result.2).2])

end Regolith.Go.Iter
