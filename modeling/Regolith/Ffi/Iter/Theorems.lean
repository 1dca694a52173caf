import Regolith.Ffi.Iter
import Regolith.Ffi.Walk

-- What one batch hands over, and what it leaves for the next, over a source that
-- yields certain entries.
namespace Regolith.Ffi

-- The entries a batch takes: until the rounds, the entries or the value bytes it may
-- retain run out.
def gathered (keys_only : Bool) : Nat → Nat → List Item → List Item
  | 0, _, _ => []
  | _ + 1, _, [] => []
  | rounds + 1, retained, x :: xs =>
      if keys_only then x :: gathered keys_only rounds retained xs
      else if MAX_BATCH_VALUE_BYTES ≤ retained + x.value.length then [x]
      else x :: gathered keys_only rounds (retained + x.value.length) xs

def key_frame (xs : List Item) : Bytes :=
  xs.flatMap fun x => Radix.toLE 4 x.key.length ++ x.key

def retained_values (keys_only : Bool) (xs : List Item) : List Bytes :=
  if keys_only then [] else xs.map (·.value)

-- Keys whose length fits the frame.
def Framable (xs : List Item) : Prop := ∀ x ∈ xs, x.key.length < 2 ^ 32

@[simp] theorem key_frame_cons (x : Item) (xs : List Item) :
    key_frame (x :: xs) = Radix.toLE 4 x.key.length ++ x.key ++ key_frame xs := by
  simp [key_frame]

theorem retained_values_cons (keys_only : Bool) (x : Item) (xs : List Item) :
    retained_values keys_only (x :: xs) =
      (if keys_only then [] else [x.value]) ++ retained_values keys_only xs := by
  cases keys_only <;> simp [retained_values]

theorem gathered_prefix (keys_only : Bool) (rounds retained : Nat) (xs : List Item) :
    gathered keys_only rounds retained xs <+: xs := by
  induction rounds generalizing retained xs with
  | zero => exact List.nil_prefix
  | succ rounds ih =>
      cases xs with
      | nil => exact List.nil_prefix
      | cons x xs =>
          simp only [gathered]
          split
          · exact List.cons_prefix_cons.mpr ⟨rfl, ih _ _⟩
          · split
            · exact List.cons_prefix_cons.mpr ⟨rfl, List.nil_prefix⟩
            · exact List.cons_prefix_cons.mpr ⟨rfl, ih _ _⟩

theorem gathered_length_le (keys_only : Bool) (rounds retained : Nat) (xs : List Item) :
    (gathered keys_only rounds retained xs).length ≤ rounds := by
  induction rounds generalizing retained xs with
  | zero => rfl
  | succ rounds ih =>
      cases xs with
      | nil => simp [gathered]
      | cons x xs =>
          have h := ih (retained + x.value.length) xs
          have h' := ih retained xs
          simp only [gathered]
          split_ifs <;> simp only [List.length_cons, List.length_nil] <;> omega

theorem gathered_ne_nil (keys_only : Bool) (rounds retained : Nat) (x : Item) (xs : List Item) :
    gathered keys_only (rounds + 1) retained (x :: xs) ≠ [] := by
  simp only [gathered]
  split_ifs <;> simp

namespace RegolithIter

open EntrySource

variable {σ : Type} [EntrySource σ] {it : RegolithIter σ} {Cut : σ → Prop} {fin : Option Raised}
  {x : Item} {xs : List Item}

section Shows

theorem current_key_of_shows (h : Shows it.bounds (some x) it.source) :
    it.current_key = some x.key := by
  simp [current_key, RegolithIter.in_range, h.1, h.2.1]

theorem current_value_of_shows (h : Shows it.bounds (some x) it.source) :
    it.current_value = if it.bounds.keys_only then none else some x.value := by
  cases hvalues : it.bounds.keys_only with
  | true => simp [current_value, hvalues]
  | false => simp [current_value, hvalues, RegolithIter.in_range, h.1, (h.2.2 hvalues).1]

theorem current_value_slice_of_shows (h : Shows it.bounds (some x) it.source) :
    it.current_value_slice = if it.bounds.keys_only then none else some x.value := by
  cases hvalues : it.bounds.keys_only with
  | true => simp [current_value_slice, hvalues]
  | false => simp [current_value_slice, hvalues, RegolithIter.in_range, h.1, (h.2.2 hvalues).2]

end Shows

-- What the next batch comes to, one entry after another.
def Upcoming (Cut : σ → Prop) (fin : Option Raised) (xs : List Item) (it : RegolithIter σ) : Prop :=
  (walking it.bounds Cut).Yields fin xs (it.advance_in_batch.1, it.advance_in_batch.2.source)

-- Between two batches: entries are still to come, or a failure that was met behind
-- the last of them is held back.
inductive Between (Cut : σ → Prop) (fin : Option Raised) (xs : List Item)
    (it : RegolithIter σ) : Prop where
  | more (hpending : it.pending = none) (hreset : it.reset = false)
      (hcurrent : it.include_current = false)
      (hyields : (walking it.bounds Cut).Yields fin xs (EntrySource.step it.bounds it.source))
  | held (failure : Failure) (hpending : it.pending = some failure) (hreset : it.reset = false)
      (hcurrent : it.include_current = false) (hnil : xs = []) (hfin : fin = some (.failure failure))
      (hcut : Cut it.source)

theorem advance_reset (hreset : it.reset = true) :
    it.advance = { it with include_current := false, reset := false }.restart := by
  simp [advance, hreset]

theorem advance_step (hreset : it.reset = false) :
    it.advance = { it with include_current := false }.step := by
  simp [advance, hreset]

theorem advance_in_batch_step (hreset : it.reset = false) (hcurrent : it.include_current = false) :
    it.advance_in_batch = it.step := by
  simp [advance_in_batch, hreset, hcurrent]

-- No round of a batch changes anything but the source and the position flags.
theorem advance_in_batch_fields (it : RegolithIter σ) :
    it.advance_in_batch.2 =
      { it with source := it.advance_in_batch.2.source, reset := false, include_current := false } := by
  obtain ⟨bounds, source, reset, include_current, batch_values, batch_count, pending⟩ := it
  cases reset <;> cases include_current <;> rfl

theorem advance_in_batch_bounds (it : RegolithIter σ) :
    it.advance_in_batch.2.bounds = it.bounds := by
  rw [advance_in_batch_fields]

-- The state of a batch after a round that framed `x`.
def framed (it : RegolithIter σ) (x : Item) : RegolithIter σ :=
  { it with
    batch_values := it.batch_values ++ if it.bounds.keys_only then [] else [x.value] }

-- A round that moves onto an entry frames it, and goes on unless the value bytes
-- retained have reached the limit.
theorem gather_found {rounds retained : Nat} {batch : KeyBatch} {next : RegolithIter σ}
    (hmove : it.advance_in_batch = (.ok true, next))
    (hshows : Shows next.bounds (some x) next.source) :
    it.gather (rounds + 1) batch retained =
      if 2 ^ 32 ≤ x.key.length then (fail (.other "key longer than 4 GiB"), next)
      else if next.bounds.keys_only = false ∧ MAX_BATCH_VALUE_BYTES ≤ retained + x.value.length then
        (.ok ⟨batch.frame ++ Radix.toLE 4 x.key.length ++ x.key, batch.count + 1⟩, next.framed x)
      else
        (next.framed x).gather rounds
          ⟨batch.frame ++ Radix.toLE 4 x.key.length ++ x.key, batch.count + 1⟩
          (if next.bounds.keys_only then retained else retained + x.value.length) := by
  rw [gather]
  simp only [hmove, current_key_of_shows hshows, current_value_slice_of_shows hshows]
  split
  · rfl
  · cases hvalues : next.bounds.keys_only with
    | true => simp [framed, hvalues]
    | false => simp [framed, hvalues]

-- How a batch ends that takes `taken` of the entries to come: all of them are framed,
-- or one has a key that is too long for the frame.
def Batched (Cut : σ → Prop) (fin : Option Raised) (taken xs : List Item) (batch : KeyBatch)
    (it : RegolithIter σ) (result : Except Raised KeyBatch × RegolithIter σ) : Prop :=
  (¬Framable taken ∧ result.1 = fail (.other "key longer than 4 GiB")) ∨
    Framable taken ∧ ∃ after, result =
        (.ok ⟨batch.frame ++ key_frame taken, batch.count + taken.length⟩, after) ∧
      after.bounds = it.bounds ∧
      after.batch_values = it.batch_values ++ retained_values it.bounds.keys_only taken ∧
      Between Cut fin (xs.drop taken.length) after

theorem Between.framed {it : RegolithIter σ} (h : Between Cut fin xs it) (x : Item) :
    Between Cut fin xs (it.framed x) := by
  cases h with
  | more hpending hreset hcurrent hyields => exact .more hpending hreset hcurrent hyields
  | held failure hpending hreset hcurrent hnil hfin hcut =>
      exact .held failure hpending hreset hcurrent hnil hfin hcut

-- What is framed first comes first.
theorem Batched.cons {taken : List Item} {batch : KeyBatch} {next : RegolithIter σ}
    {result : Except Raised KeyBatch × RegolithIter σ} (hx : x.key.length < 2 ^ 32)
    (h : Batched Cut fin taken xs
      ⟨batch.frame ++ Radix.toLE 4 x.key.length ++ x.key, batch.count + 1⟩ (next.framed x) result) :
    Batched Cut fin (x :: taken) (x :: xs) batch next result := by
  have hframable : Framable (x :: taken) ↔ Framable taken := by
    simp only [Framable, List.forall_mem_cons, hx, true_and]
  rcases h with ⟨hlong, hresult⟩ | ⟨hshort, after, hresult, hbounds, hvalues, hbetween⟩
  · exact .inl ⟨mt hframable.mp hlong, hresult⟩
  · refine .inr ⟨hframable.mpr hshort, after, ?_, hbounds, ?_, hbetween⟩
    · rw [hresult]
      simp only [key_frame_cons, List.append_assoc, List.length_cons, Prod.mk.injEq, Except.ok.injEq,
        KeyBatch.mk.injEq, true_and, and_true]
      omega
    · rw [hvalues, retained_values_cons]
      simp only [RegolithIter.framed, List.append_assoc]

-- A round that moves onto an entry, when the rounds after it do as they should.
theorem gather_round (rounds retained : Nat) (batch : KeyBatch) {next : RegolithIter σ}
    (hmove : it.advance_in_batch = (.ok true, next))
    (hshows : Shows next.bounds (some x) next.source) (hbetween : Between Cut fin xs next)
    (hmore : ∀ retained batch, 0 < batch.count →
      Batched Cut fin (gathered next.bounds.keys_only rounds retained xs) xs batch (next.framed x)
        ((next.framed x).gather rounds batch retained)) :
    Batched Cut fin (gathered next.bounds.keys_only (rounds + 1) retained (x :: xs)) (x :: xs) batch
      next (it.gather (rounds + 1) batch retained) := by
  have hhead : ∃ taken, gathered next.bounds.keys_only (rounds + 1) retained (x :: xs) =
      x :: taken := by
    simp only [gathered]
    split_ifs <;> simp
  rw [gather_found hmove hshows]
  split
  · next hlong =>
      obtain ⟨taken, htaken⟩ := hhead
      refine .inl ⟨?_, rfl⟩
      rw [htaken]
      intro hframable
      exact absurd (hframable x (by simp)) (not_lt.mpr hlong)
  · next hshort =>
      have hx : x.key.length < 2 ^ 32 := not_le.mp hshort
      cases hvalues : next.bounds.keys_only with
      | true =>
          rw [hvalues] at hmore
          simpa [gathered] using Batched.cons hx (hmore retained _ (Nat.succ_pos _))
      | false =>
          rw [hvalues] at hmore
          by_cases hfull : MAX_BATCH_VALUE_BYTES ≤ retained + x.value.length
          · simp only [gathered, hfull, and_self, if_true, Bool.false_eq_true, if_false]
            refine Batched.cons hx (.inr ⟨by simp [Framable], next.framed x, ?_, rfl, ?_, ?_⟩)
            · simp [key_frame]
            · simp [retained_values]
            · exact hbetween.framed x
          · simp only [gathered, hfull, and_false, if_false, Bool.false_eq_true]
            exact Batched.cons hx (hmore _ _ (Nat.succ_pos _))

-- A batch with something in it already.
theorem gather_more (hfin : ∀ payload, fin ≠ some (.panic payload)) {rounds retained : Nat}
    {batch : KeyBatch} (hcount : 0 < batch.count) (h : Between Cut fin xs it)
    (hpending : it.pending = none) :
    Batched Cut fin (gathered it.bounds.keys_only rounds retained xs) xs batch it
      (it.gather rounds batch retained) := by
  induction rounds generalizing xs retained batch it with
  | zero =>
      refine .inr ⟨by simp [gathered, Framable], it, ?_, rfl, ?_, ?_⟩
      · simp [gather, gathered, key_frame]
      · simp [gathered, retained_values]
      · simpa [gathered] using h
  | succ rounds ih =>
      cases h with
      | held failure hheld => simp [hheld] at hpending
      | more _ hreset hcurrent hyields =>
          have hmove := advance_in_batch_step hreset hcurrent
          cases xs with
          | nil =>
              refine .inr ⟨by simp [gathered, Framable], ?_⟩
              cases fin with
              | none =>
                  obtain ⟨hstop, hover⟩ := hyields
                  refine ⟨it.step.2, ?_, rfl, ?_, .more hpending hreset hcurrent hover.yields⟩
                  · have hresult : it.step = (.ok false, it.step.2) := Prod.ext hstop rfl
                    rw [gather, hmove, hresult]
                    simp [gathered, key_frame]
                  · simp [gathered, retained_values, step, on_source]
              | some raised =>
                  obtain ⟨herror, hcut⟩ := hyields
                  cases raised with
                  | panic payload => exact absurd rfl (hfin payload)
                  | failure failure =>
                      refine ⟨{ it.step.2 with pending := some failure }, ?_, rfl, ?_,
                        .held failure rfl hreset hcurrent rfl rfl hcut⟩
                      · have hresult : it.step = (.error (.failure failure), it.step.2) :=
                          Prod.ext herror rfl
                        rw [gather, hmove, hresult]
                        simp [gathered, key_frame, hcount.ne']
                      · simp [gathered, retained_values, step, on_source]
          | cons x xs =>
              obtain ⟨hok, hshows, hrest⟩ := hyields
              have hresult : it.advance_in_batch = (.ok true, it.step.2) :=
                hmove.trans (Prod.ext hok rfl)
              have hbetween : Between Cut fin xs it.step.2 :=
                .more hpending hreset hcurrent hrest
              have hround := gather_round rounds retained batch hresult hshows hbetween
                (fun retained batch hcount => ih hcount (hbetween.framed x) hpending)
              exact hround

theorem Upcoming.invalidate_batch (h : Upcoming Cut fin xs it) :
    Upcoming Cut fin xs it.invalidate_batch := by
  obtain ⟨bounds, source, reset, include_current, batch_values, batch_count, pending⟩ := it
  cases reset <;> cases include_current <;> exact h

theorem Between.upcoming (h : Between Cut fin xs it) (hpending : it.pending = none) :
    Upcoming Cut fin xs it := by
  cases h with
  | held failure hheld => simp [hheld] at hpending
  | more _ hreset hcurrent hyields =>
      unfold Upcoming
      rw [advance_in_batch_step hreset hcurrent]
      exact hyields

-- A first round, from any position.
theorem gather_first (hfin : ∀ payload, fin ≠ some (.panic payload)) (rounds : Nat)
    (h : Upcoming Cut fin xs it) (hpending : it.pending = none) (hsome : xs ≠ [] ∨ fin = none) :
    Batched Cut fin (gathered it.bounds.keys_only (rounds + 1) 0 xs) xs ⟨[], 0⟩ it
      (it.gather (rounds + 1) ⟨[], 0⟩ 0) := by
  obtain ⟨next, hnext⟩ : ∃ next, next = it.advance_in_batch.2 := ⟨_, rfl⟩
  have hfields := advance_in_batch_fields it
  rw [← hnext] at hfields
  have hbounds : next.bounds = it.bounds := by rw [hfields]
  have hvalues : next.batch_values = it.batch_values := by rw [hfields]
  have hnone : next.pending = none := by rw [hfields, hpending]
  have hreset : next.reset = false := by rw [hfields]
  have hcurrent : next.include_current = false := by rw [hfields]
  unfold Upcoming at h
  rw [← hnext] at h
  cases xs with
  | nil =>
      obtain rfl : fin = none := by simpa using hsome
      obtain ⟨hstop, hover⟩ := h
      have hresult : it.advance_in_batch = (.ok false, next) := Prod.ext hstop hnext.symm
      refine .inr ⟨by simp [gathered, Framable], next, ?_, hbounds, ?_, ?_⟩
      · rw [gather, hresult]
        simp [gathered, key_frame]
      · simp [gathered, retained_values, hvalues]
      · exact .more hnone hreset hcurrent (hbounds ▸ hover.yields)
  | cons x xs =>
      obtain ⟨hok, hshows, hrest⟩ := h
      have hresult : it.advance_in_batch = (.ok true, next) := Prod.ext hok hnext.symm
      rw [← hbounds] at hshows hrest
      have hbetween : Between Cut fin xs next := .more hnone hreset hcurrent hrest
      have hround := gather_round rounds 0 ⟨[], 0⟩ hresult hshows hbetween
        (fun retained batch hcount => gather_more hfin hcount (hbetween.framed x) hnone)
      unfold Batched at hround ⊢
      rw [hbounds, hvalues] at hround
      exact hround

-- A property that the rounds of a batch keep and that does not depend on the batch.
structure BatchInvariant (Inv : RegolithIter σ → Prop) : Prop where
  advance : ∀ it, Inv it → Inv it.advance_in_batch.2
  batch : ∀ it values count, Inv it →
    Inv { it with batch_values := values, batch_count := count }
  pending : ∀ it pending, Inv it → Inv { it with pending := pending }

-- One round, with the rounds after it.
theorem BatchInvariant.gather_after {Inv : RegolithIter σ → Prop} (inv : BatchInvariant Inv)
    {rounds : Nat} (hrest : ∀ it batch retained, Inv it → Inv (it.gather rounds batch retained).2)
    (batch : KeyBatch) (retained : Nat) (hnext : Inv it.advance_in_batch.2) :
    Inv (it.gather (rounds + 1) batch retained).2 := by
  rcases hmove : it.advance_in_batch with ⟨result, next⟩
  rw [hmove] at hnext
  rw [RegolithIter.gather]
  simp only [hmove]
  rcases result with (failure | payload) | (_ | _)
  · simp only
    split
    · exact hnext
    · exact inv.pending _ _ hnext
  · exact hnext
  · exact hnext
  · simp only
    split
    · exact hnext
    · split
      · exact hnext
      · split
        · exact hrest _ _ _ hnext
        · split
          · exact inv.batch _ _ _ hnext
          · exact hrest _ _ _ (inv.batch _ _ _ hnext)

theorem BatchInvariant.gather {Inv : RegolithIter σ → Prop} (inv : BatchInvariant Inv)
    (rounds : Nat) (batch : KeyBatch) (retained : Nat) (h : Inv it) :
    Inv (it.gather rounds batch retained).2 := by
  induction rounds generalizing it batch retained with
  | zero => exact h
  | succ rounds ih => exact inv.gather_after (fun _ _ _ => ih _ _) _ _ (inv.advance it h)

theorem BatchInvariant.next_batch {Inv : RegolithIter σ → Prop} (inv : BatchInvariant Inv)
    (h : Inv it) (max_entries : Nat) (out out_len out_count err : OutParam) :
    Inv (regolith_iter_next_batch it max_entries out out_len out_count err).2 := by
  simp only [regolith_iter_next_batch]
  split
  · exact h
  · split
    · exact h
    · have hinvalidated : Inv it.invalidate_batch := inv.batch it [] 0 h
      have hgather := inv.gather max_entries ⟨[], 0⟩ 0 hinvalidated
      cases it.invalidate_batch.pending with
      | some failure => exact inv.pending _ none hinvalidated
      | none =>
          simp only
          generalize it.invalidate_batch.gather max_entries ⟨[], 0⟩ 0 = result at *
          obtain ⟨raised | batch, after⟩ := result
          · exact hgather
          · exact inv.batch after after.batch_values batch.count hgather

theorem keepsBounds (b : Bounds) : BatchInvariant fun i : RegolithIter σ => i.bounds = b where
  advance i h := (advance_in_batch_bounds i).trans h
  batch _ _ _ h := h
  pending _ _ h := h

-- What every move of the source keeps, a batch keeps.
theorem keepsLive {b : Bounds} {Live : σ → Prop}
    (hrestart : ∀ source, Live source → Live (EntrySource.restart b source).2)
    (hstep : ∀ source, Live source → Live (EntrySource.step b source).2) :
    BatchInvariant fun it : RegolithIter σ => it.bounds = b ∧ Live it.source where
  advance it h := by
    obtain ⟨rfl, hlive⟩ := h
    refine ⟨advance_in_batch_bounds it, ?_⟩
    unfold advance_in_batch
    split
    · exact hrestart _ hlive
    · split
      · exact hlive
      · exact hstep _ hlive
  batch _ _ _ h := h
  pending _ _ h := h

-- What `regolith_iter_next_batch` answers with entries, and where it leaves the iterator.
structure HandsOver (Cut : σ → Prop) (fin : Option Raised) (taken xs : List Item) (err : OutParam)
    (it : RegolithIter σ) (result : Reply KeyBatch × RegolithIter σ) : Prop where
  reply : result.1 = guard err (.ok ⟨key_frame taken, taken.length⟩)
  bounds : result.2.bounds = it.bounds
  batch_values : result.2.batch_values = retained_values it.bounds.keys_only taken
  batch_count : result.2.batch_count = taken.length
  between : Between Cut fin (xs.drop taken.length) result.2

theorem Between.set_batch_count (h : Between Cut fin xs it) (count : Nat) :
    Between Cut fin xs { it with batch_count := count } := by
  cases h with
  | more hpending hreset hcurrent hyields => exact .more hpending hreset hcurrent hyields
  | held failure hpending hreset hcurrent hnil hfin hcut =>
      exact .held failure hpending hreset hcurrent hnil hfin hcut

theorem next_batch_rejected {max_entries : Nat} {out out_len out_count : OutParam}
    (h : out = .null ∨ out_len = .null ∨ out_count = .null ∨ max_entries = 0) (err : OutParam) :
    (regolith_iter_next_batch it max_entries out out_len out_count err).1.status = INVALID_ARG ∧
      (regolith_iter_next_batch it max_entries out out_len out_count err).2 = it := by
  simp only [regolith_iter_next_batch]
  by_cases hnull : out = .null ∨ out_len = .null ∨ out_count = .null
  · rw [if_pos hnull]
    exact ⟨rfl, rfl⟩
  · have hmax : max_entries = 0 := by tauto
    rw [if_neg hnull, if_pos hmax]
    exact ⟨rfl, rfl⟩

theorem next_batch_pending {failure : Failure} (hpending : it.pending = some failure)
    {max_entries : Nat} (hmax : max_entries ≠ 0) (err : OutParam) :
    regolith_iter_next_batch it max_entries .writable .writable .writable err =
      (guard err (fail failure), { it.invalidate_batch with pending := none }) := by
  simp [regolith_iter_next_batch, hmax, invalidate_batch, hpending]

theorem next_batch_gather (hpending : it.pending = none) {max_entries : Nat}
    (hmax : max_entries ≠ 0) (err : OutParam) :
    regolith_iter_next_batch it max_entries .writable .writable .writable err =
      match it.invalidate_batch.gather max_entries ⟨[], 0⟩ 0 with
      | (.error raised, it) => (guard err (.error raised), it)
      | (.ok batch, it) => (guard err (.ok batch), { it with batch_count := batch.count }) := by
  have hnone : it.invalidate_batch.pending = none := hpending
  rcases hgather : it.invalidate_batch.gather max_entries ⟨[], 0⟩ 0 with ⟨result, after⟩
  cases result <;> simp [regolith_iter_next_batch, hmax, hnone, hgather]

-- A batch whose first round leads to `Inv`.
theorem BatchInvariant.next_batch_after {Inv : RegolithIter σ → Prop} (inv : BatchInvariant Inv)
    (hpending : it.pending = none) {max_entries : Nat} (hmax : max_entries ≠ 0) (err : OutParam)
    (hfirst : Inv it.invalidate_batch.advance_in_batch.2) :
    Inv (regolith_iter_next_batch it max_entries .writable .writable .writable err).2 := by
  obtain ⟨rounds, rfl⟩ := Nat.exists_eq_succ_of_ne_zero hmax
  have hgather := inv.gather_after (fun _ batch retained => inv.gather rounds batch retained)
    ⟨[], 0⟩ 0 hfirst
  rw [next_batch_gather hpending hmax]
  rcases hafter : it.invalidate_batch.gather (rounds + 1) ⟨[], 0⟩ 0 with ⟨raised | batch, after⟩
  · rw [hafter] at hgather
    exact hgather
  · rw [hafter] at hgather
    exact inv.batch after after.batch_values batch.count hgather

-- The entries to come, as many as one batch takes; a clean end is an empty batch.
theorem next_batch_yields (hfin : ∀ payload, fin ≠ some (.panic payload))
    (h : Upcoming Cut fin xs it) (hpending : it.pending = none) (hsome : xs ≠ [] ∨ fin = none)
    {max_entries : Nat} (hmax : max_entries ≠ 0) (err : OutParam) :
    (¬Framable (gathered it.bounds.keys_only max_entries 0 xs) ∧
        (regolith_iter_next_batch it max_entries .writable .writable .writable err).1 =
          guard err (fail (.other "key longer than 4 GiB"))) ∨
      Framable (gathered it.bounds.keys_only max_entries 0 xs) ∧
        HandsOver Cut fin (gathered it.bounds.keys_only max_entries 0 xs) xs err it
          (regolith_iter_next_batch it max_entries .writable .writable .writable err) := by
  obtain ⟨rounds, rfl⟩ := Nat.exists_eq_succ_of_ne_zero hmax
  rw [next_batch_gather hpending hmax]
  rcases gather_first hfin rounds h.invalidate_batch hpending hsome with
    ⟨hlong, hresult⟩ | ⟨hshort, after, hresult, hbounds, hvalues, hbetween⟩
  · refine .inl ⟨hlong, ?_⟩
    rcases hgather : it.invalidate_batch.gather (rounds + 1) ⟨[], 0⟩ 0 with ⟨result, after⟩
    rw [hgather] at hresult
    simp only at hresult
    subst hresult
    rfl
  · refine .inr ⟨hshort, ?_⟩
    simp only [Nat.succ_eq_add_one, hresult]
    exact ⟨by simp [invalidate_batch], hbounds, hvalues, by simp [invalidate_batch],
      hbetween.set_batch_count _⟩

-- A failure met before anything was gathered is returned at once.
theorem next_batch_failed {raised : Raised} (h : Upcoming Cut (some raised) [] it)
    (hpending : it.pending = none) {max_entries : Nat} (hmax : max_entries ≠ 0) (err : OutParam) :
    (regolith_iter_next_batch it max_entries .writable .writable .writable err).1 =
      guard err (.error raised) := by
  obtain ⟨rounds, rfl⟩ := Nat.exists_eq_succ_of_ne_zero hmax
  rw [next_batch_gather hpending hmax]
  obtain ⟨herror, -⟩ := h.invalidate_batch
  rcases hmove : it.invalidate_batch.advance_in_batch with ⟨result, after⟩
  simp only [hmove] at herror
  subst herror
  cases raised <;> simp [gather, hmove, fail]

end RegolithIter

section Handle

open RegolithIter

variable {C T S : Type} [OwnedSnapshotIter C] [TxnScanStream S] [OwnedTransaction T S]

omit [OwnedTransaction T S] in
theorem step_handle (b : Bounds) (source : Source C T S) :
    (source.step b).2.handle = source.handle := by
  cases source with
  | Snapshot cursor =>
    simp only [Source.step]
    split <;> rfl
  | Txn txn stream current =>
    cases stream with
    | none => rfl
    | some stream =>
      simp only [Source.step, Source.pull]
      split
      · rfl
      · split <;> rfl

-- The rounds of a batch after its first one do not come near the transaction.
theorem batch_keeps_handle (handle : Option (TxnInner T)) :
    BatchInvariant fun it : RegolithIter (Source C T S) =>
      it.reset = false ∧ it.source.handle = handle where
  advance it h := by
    rw [advance_in_batch_fields]
    refine ⟨rfl, ?_⟩
    simp only [advance_in_batch, h.1, Bool.false_eq_true, if_false]
    split
    · exact h.2
    · exact (step_handle it.bounds it.source).trans h.2
  batch _ _ _ h := h
  pending _ _ h := h

end Handle

end Regolith.Ffi
