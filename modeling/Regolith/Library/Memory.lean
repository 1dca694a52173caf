import Mathlib.Data.List.Basic

-- Arrays, and slices that are windows on them: an append writes in place where there is room,
-- and moves to a new array where there is none.
namespace Memory

abbrev Heap (α : Type) := List (List α)

structure Slice where
  array : Nat
  off : Nat
  len : Nat
  cap : Nat

variable {α : Type}

def splice (xs : List α) (i : Nat) (data : List α) : List α :=
  xs.take i ++ data ++ xs.drop (i + data.length)

namespace Heap

def array (h : Heap α) (a : Nat) : List α := h[a]?.getD []

def put (h : Heap α) (a i : Nat) (data : List α) : Heap α := h.modify a (splice · i data)

-- A new array that holds `data`, and a slice of it.
def make [Inhabited α] (h : Heap α) (data : List α) (cap : Nat) : Slice × Heap α :=
  (⟨h.length, 0, data.length, max cap data.length⟩,
    h ++ [data ++ List.replicate (cap - data.length) default])

end Heap

namespace Slice

def nil : Slice := ⟨0, 0, 0, 0⟩

def read (h : Heap α) (s : Slice) : List α := ((h.array s.array).drop s.off).take s.len

structure Fits (h : Heap α) (s : Slice) : Prop where
  len_le : s.len ≤ s.cap
  room : s.cap ≠ 0 → s.off + s.cap ≤ (h.array s.array).length

-- No element is in both, now or after appends in place.
def Apart (s t : Slice) : Prop := s.cap = 0 ∨ t.cap = 0 ∨ s.array ≠ t.array

-- `grow` says how much room a new array is made with, at the least what is needed.
def append [Inhabited α] (grow : Nat → Nat → Nat) (h : Heap α) (s : Slice) (data : List α) :
    Slice × Heap α :=
  if s.len + data.length ≤ s.cap then
    ({ s with len := s.len + data.length }, h.put s.array (s.off + s.len) data)
  else h.make (s.read h ++ data) (grow s.cap (s.len + data.length))

-- `s[lo:hi]`, that may reach past what is in use.
def window (s : Slice) (lo hi : Nat) : Slice := ⟨s.array, s.off + lo, hi - lo, s.cap - lo⟩

end Slice

theorem length_splice {xs : List α} {i : Nat} {data : List α} (h : i + data.length ≤ xs.length) :
    (splice xs i data).length = xs.length := by
  simp [splice]
  omega

@[simp] theorem splice_nil (xs : List α) (i : Nat) : splice xs i [] = xs := by
  simp [splice]

namespace Heap

variable {h : Heap α} {a i : Nat} {data : List α}

theorem array_put_self (ha : a < h.length) : (h.put a i data).array a = splice (h.array a) i data := by
  simp [array, put, ha]

theorem array_put_of_ne {b : Nat} (hb : b ≠ a) : (h.put a i data).array b = h.array b := by
  simp [array, put, Ne.symm hb]

@[simp] theorem put_nil : h.put a i [] = h := by
  refine List.ext_getElem? fun b => ?_
  by_cases hb : b = a <;> simp [put, List.getElem?_modify, hb]

@[simp] theorem length_put : (h.put a i data).length = h.length := List.length_modify ..

theorem array_append_left (h' : Heap α) (ha : a < h.length) :
    Heap.array (h ++ h') a = h.array a := by
  simp [array, List.getElem?_append_left ha]

theorem lt_length (ha : h.array a ≠ []) : a < h.length := by
  by_contra hge
  exact ha (by simp [array, List.getElem?_eq_none (Nat.le_of_not_lt hge)])

end Heap

theorem read_splice {xs : List α} {off len : Nat} {data : List α} (h : off + len ≤ xs.length) :
    ((splice xs (off + len) data).drop off).take (len + data.length) =
      (xs.drop off).take len ++ data := by
  have hfront : (xs.take (off + len)).drop off = (xs.drop off).take len := by
    rw [List.drop_take, Nat.add_sub_cancel_left]
  have hlength : ((xs.drop off).take len).length = len := by
    rw [List.length_take, List.length_drop]
    omega
  rw [splice, List.append_assoc, List.drop_append_of_le_length (by simp; omega), hfront,
    List.take_append, hlength, Nat.add_sub_cancel_left, List.take_append_of_le_length (Nat.le_refl _),
    List.take_length, List.take_of_length_le (by omega)]

namespace Slice

variable {h : Heap α} {s t : Slice} {data : List α}

@[simp] theorem nil_fits : nil.Fits h := ⟨Nat.le_refl _, fun hcap => absurd rfl hcap⟩

theorem Apart.symm (hst : s.Apart t) : t.Apart s := by
  unfold Apart at *
  tauto

theorem Fits.array_lt (hs : s.Fits h) (hcap : s.cap ≠ 0) : s.array < h.length := by
  refine Heap.lt_length fun hnil => hcap ?_
  have := hs.room hcap
  simp only [hnil, List.length_nil] at this
  omega

theorem read_of_cap_eq_zero (hs : s.Fits h) (hcap : s.cap = 0) (h' : Heap α) : s.read h' = [] := by
  have : s.len = 0 := by
    have := hs.len_le
    omega
  simp [read, this]

theorem Fits.length_read (hs : s.Fits h) : (s.read h).length = s.len := by
  have hlen := hs.len_le
  by_cases hcap : s.cap = 0
  · simp [read_of_cap_eq_zero hs hcap]
    omega
  · have hroom := hs.room hcap
    simp only [read, List.length_take, List.length_drop]
    omega

-- What happens to the slices apart from one that moves.
def Moves (h : Heap α) (s : Slice) (h' : Heap α) (s' : Slice) : Prop :=
  ∀ t : Slice, t.Fits h → s.Apart t → t.Fits h' ∧ t.read h' = t.read h ∧ s'.Apart t

theorem Moves.trans {h' h'' : Heap α} {s' s'' : Slice} (hs : Moves h s h' s')
    (hs' : Moves h' s' h'' s'') : Moves h s h'' s'' := by
  intro t ht hapart
  obtain ⟨ht', hread, hapart'⟩ := hs t ht hapart
  obtain ⟨ht'', hread', hapart''⟩ := hs' t ht' hapart'
  exact ⟨ht'', hread'.trans hread, hapart''⟩

-- A slice reads the same where its array is the same.
theorem Fits.of_array_eq {h' : Heap α} (ht : t.Fits h)
    (harray : t.cap ≠ 0 → h'.array t.array = h.array t.array) :
    t.Fits h' ∧ t.read h' = t.read h := by
  refine ⟨⟨ht.len_le, fun hcap => by rw [harray hcap]; exact ht.room hcap⟩, ?_⟩
  by_cases hcap : t.cap = 0
  · rw [read_of_cap_eq_zero ht hcap, read_of_cap_eq_zero ht hcap]
  · rw [read, read, harray hcap]

-- A write in place moves no slice, and reaches none that is apart from the one written to.
theorem Fits.put {a i : Nat} (ht : t.Fits h) (hlength : i + data.length ≤ (h.array a).length) :
    t.Fits (h.put a i data) := by
  refine ⟨ht.len_le, fun hcap => ?_⟩
  by_cases ha : t.array = a
  · subst ha
    rw [Heap.array_put_self (ht.array_lt hcap), length_splice hlength]
    exact ht.room hcap
  · rw [Heap.array_put_of_ne ha]
    exact ht.room hcap

theorem put_moves (hcap : data ≠ [] → s.cap ≠ 0) (i : Nat) :
    Moves h s (h.put s.array i data) s := by
  intro t ht hapart
  have harray : t.cap ≠ 0 → (h.put s.array i data).array t.array = h.array t.array := by
    intro htcap
    rcases hapart with hzero | hzero | hne
    · obtain rfl : data = [] := by
        by_contra hdata
        exact hcap hdata hzero
      rw [Heap.put_nil]
    · exact absurd hzero htcap
    · exact Heap.array_put_of_ne (Ne.symm hne)
  obtain ⟨ht', hread⟩ := ht.of_array_eq harray
  exact ⟨ht', hread, hapart⟩

theorem Apart.window (hst : s.Apart t) (lo hi : Nat) : s.Apart (t.window lo hi) := by
  rcases hst with hzero | hzero | hne
  · exact .inl hzero
  · exact .inr (.inl (by simp [Slice.window, hzero]))
  · exact .inr (.inr hne)

theorem read_window {lo hi : Nat} (hhi : hi ≤ s.len) :
    (s.window lo hi).read h = ((s.read h).take hi).drop lo := by
  simp only [read, window, List.drop_take, List.take_take, List.drop_drop]
  rw [Nat.min_eq_left hhi]

theorem Fits.window (hs : s.Fits h) {lo hi : Nat} (hlo : lo ≤ hi) (hhi : hi ≤ s.cap) :
    (s.window lo hi).Fits h := by
  refine ⟨by simp [Slice.window]; omega, fun hcap => ?_⟩
  simp only [Slice.window] at hcap ⊢
  have := hs.room (by omega)
  omega

variable [Inhabited α]

theorem make_moves (h : Heap α) (data : List α) (cap : Nat) :
    Moves h s (h.make data cap).2 (h.make data cap).1 := by
  intro t ht _
  have harray : t.cap ≠ 0 → (h.make data cap).2.array t.array = h.array t.array := fun hcap =>
    Heap.array_append_left _ (ht.array_lt hcap)
  obtain ⟨ht', hread⟩ := ht.of_array_eq harray
  refine ⟨ht', hread, ?_⟩
  by_cases hcap : t.cap = 0
  · exact .inr (.inl hcap)
  · exact .inr (.inr (Nat.ne_of_gt (ht.array_lt hcap)))

theorem make_fits (h : Heap α) (data : List α) (cap : Nat) :
    (h.make data cap).1.Fits (h.make data cap).2 := by
  refine ⟨Nat.le_max_right .., fun _ => ?_⟩
  simp [Heap.make, Heap.array]
  omega

theorem make_read (h : Heap α) (data : List α) (cap : Nat) :
    (h.make data cap).1.read (h.make data cap).2 = data := by
  simp [Heap.make, read, Heap.array]

variable {grow : Nat → Nat → Nat}

theorem append_fits (hs : s.Fits h) :
    (s.append grow h data).1.Fits (s.append grow h data).2 := by
  unfold append
  split_ifs with hroom
  · refine ⟨hroom, fun hcap => ?_⟩
    have hfits := hs.room hcap
    simp only
    rw [Heap.array_put_self (hs.array_lt hcap), length_splice (by omega)]
    exact hfits
  · exact make_fits ..

theorem append_read (hs : s.Fits h) :
    (s.append grow h data).1.read (s.append grow h data).2 = s.read h ++ data := by
  unfold append
  split_ifs with hroom
  · by_cases hcap : s.cap = 0
    · obtain rfl : data = [] := List.eq_nil_of_length_eq_zero (by omega)
      have hlen : s.len = 0 := by omega
      simp [read, hlen]
    · have hfits := hs.room hcap
      have hlen := hs.len_le
      simp only [read]
      rw [Heap.array_put_self (hs.array_lt hcap), read_splice (by omega)]
  · exact make_read ..

theorem append_moves : Moves h s (s.append grow h data).2 (s.append grow h data).1 := by
  unfold append
  split_ifs with hroom
  · refine put_moves (fun hdata hcap => hdata ?_) _
    exact List.eq_nil_of_length_eq_zero (by omega)
  · exact make_moves _ _ _

theorem Fits.append (hs : s.Fits h) (ht : t.Fits h) : t.Fits (s.append grow h data).2 := by
  unfold Slice.append
  split_ifs with hroom
  · by_cases hcap : s.cap = 0
    · obtain rfl : data = [] := List.eq_nil_of_length_eq_zero (by omega)
      rwa [Heap.put_nil]
    · have := hs.room hcap
      exact ht.put (by omega)
  · exact (make_moves (s := nil) _ _ _ t ht (.inl rfl)).1

theorem append_len (hs : s.Fits h) : (s.append grow h data).1.len = s.len + data.length := by
  unfold append
  split_ifs with hroom
  · rfl
  · simp [Heap.make, hs.length_read]

-- A slice after some appends, of `data` in all. Where there was room, nothing was made.
structure Grew (h : Heap α) (s : Slice) (h' : Heap α) (s' : Slice) (data : List α) : Prop where
  fits : s'.Fits h'
  read : s'.read h' = s.read h ++ data
  len : s'.len = s.len + data.length
  moves : Moves h s h' s'
  room : s.cap ≤ s'.cap
  in_place : s.len + data.length ≤ s.cap → h'.length = h.length ∧ s'.cap = s.cap

theorem append_grew (grow : Nat → Nat → Nat) (data : List α) (hs : s.Fits h) :
    Grew h s (s.append grow h data).2 (s.append grow h data).1 data where
  fits := append_fits hs
  read := append_read hs
  len := append_len hs
  moves := append_moves
  room := by
    unfold append
    split_ifs with hroom
    · exact Nat.le_refl _
    · simp only [Heap.make, List.length_append, hs.length_read]
      omega
  in_place hroom := by simp [append, hroom]

omit [Inhabited α] in
theorem Grew.trans {h' h'' : Heap α} {s' s'' : Slice} {data' : List α}
    (hg : Grew h s h' s' data) (hg' : Grew h' s' h'' s'' data') :
    Grew h s h'' s'' (data ++ data') where
  fits := hg'.fits
  read := by rw [hg'.read, hg.read, List.append_assoc]
  len := by rw [hg'.len, hg.len, List.length_append, Nat.add_assoc]
  moves := hg.moves.trans hg'.moves
  room := Nat.le_trans hg.room hg'.room
  in_place hroom := by
    rw [List.length_append] at hroom
    obtain ⟨hlength, hcap⟩ := hg.in_place (by omega)
    obtain ⟨hlength', hcap'⟩ := hg'.in_place (by rw [hg.len, hcap]; omega)
    exact ⟨hlength'.trans hlength, hcap'.trans hcap⟩

end Slice

-- Code that has some slices, and what it does with them.
structure Holder (α : Type) where
  mem : Heap α
  slices : List Slice

inductive Move (α : Type) where
  | make (data : List α) (cap : Nat)
  | window (i lo hi : Nat)
  | store (i j : Nat) (a : α)
  | append (i : Nat) (data : List α)

namespace Holder

-- A move out of bounds does nothing.
def step [Inhabited α] (grow : Nat → Nat → Nat) (c : Holder α) : Move α → Holder α
  | .make data cap =>
      let (s, mem) := c.mem.make data cap
      ⟨mem, c.slices ++ [s]⟩
  | .window i lo hi =>
      match c.slices[i]? with
      | some s =>
          if lo ≤ hi ∧ hi ≤ s.cap then { c with slices := c.slices ++ [s.window lo hi] } else c
      | none => c
  | .store i j a =>
      match c.slices[i]? with
      | some s => if j < s.len then { c with mem := c.mem.put s.array (s.off + j) [a] } else c
      | none => c
  | .append i data =>
      match c.slices[i]? with
      | some s =>
          let (s, mem) := s.append grow c.mem data
          ⟨mem, c.slices ++ [s]⟩
      | none => c

-- The array that a move writes to: an append may do so, past what its slice reads.
def writes (c : Holder α) : Move α → Option Nat
  | .store i j _ =>
      match c.slices[i]? with
      | some s => if j < s.len then some s.array else none
      | none => none
  | .append i data =>
      match c.slices[i]? with
      | some s => if data ≠ [] ∧ s.len + data.length ≤ s.cap then some s.array else none
      | none => none
  | _ => none

open Slice

variable {c c' : Holder α} {w : Option Nat} {s : Slice}

-- What a move leaves of any slices, the code's own or not.
structure Stepped (c : Holder α) (w : Option Nat) (c' : Holder α) : Prop where
  fits : ∀ t : Slice, t.Fits c.mem → t.Fits c'.mem
  slices : c.slices <+: c'.slices
  own : ∀ s ∈ c'.slices, s.Fits c'.mem
  reads : ∀ t : Slice, t.Fits c.mem → w ≠ some t.array → t.read c'.mem = t.read c.mem
  apart : ∀ t : Slice, t.Fits c.mem → (∀ s ∈ c.slices, t.Apart s) → ∀ s ∈ c'.slices, t.Apart s

theorem writes_own {m : Move α} {a : Nat} (hfits : ∀ s ∈ c.slices, s.Fits c.mem)
    (h : c.writes m = some a) : ∃ s ∈ c.slices, s.array = a ∧ s.cap ≠ 0 := by
  cases m with
  | make | window => cases h
  | store i j _ =>
    simp only [writes] at h
    cases hs : c.slices[i]? with
    | none => simp [hs] at h
    | some s =>
      have hmem := List.mem_of_getElem? hs
      have hlen := (hfits s hmem).len_le
      simp only [hs, Option.some.injEq, Option.ite_none_right_eq_some] at h
      exact ⟨s, hmem, h.2, by omega⟩
  | append i data =>
    simp only [writes] at h
    cases hs : c.slices[i]? with
    | none => simp [hs] at h
    | some s =>
      simp only [hs, Option.ite_none_right_eq_some, Option.some.injEq] at h
      obtain ⟨⟨hdata, hroom⟩, harray⟩ := h
      have hlength := List.length_pos_of_ne_nil hdata
      exact ⟨s, List.mem_of_getElem? hs, harray, by omega⟩

-- What no slice of the code reaches, it leaves alone.
theorem Stepped.reads_apart {m : Move α} (h : Stepped c (c.writes m) c')
    (hfits : ∀ s ∈ c.slices, s.Fits c.mem) {t : Slice} (ht : t.Fits c.mem)
    (hapart : ∀ s ∈ c.slices, t.Apart s) : t.read c'.mem = t.read c.mem := by
  by_cases hw : c.writes m = some t.array
  · obtain ⟨s, hs, harray, hcap⟩ := writes_own hfits hw
    have htcap : t.cap = 0 := by
      rcases hapart s hs with hzero | hzero | hne
      · exact hzero
      · exact absurd hzero hcap
      · exact absurd harray.symm hne
    rw [read_of_cap_eq_zero ht htcap, read_of_cap_eq_zero ht htcap]
  · exact h.reads t ht hw

theorem Stepped.refl (hfits : ∀ s ∈ c.slices, s.Fits c.mem) : Stepped c w c :=
  ⟨fun _ ht => ht, List.prefix_refl _, hfits, fun _ _ _ => rfl, fun _ _ h => h⟩

-- One more slice.
theorem Stepped.snoc {mem : Heap α} (hfits : ∀ s ∈ c.slices, s.Fits c.mem) (hs : s.Fits mem)
    (hkeeps : ∀ t : Slice, t.Fits c.mem →
      t.Fits mem ∧ (w ≠ some t.array → t.read mem = t.read c.mem) ∧
        ((∀ s ∈ c.slices, t.Apart s) → t.Apart s)) :
    Stepped c w ⟨mem, c.slices ++ [s]⟩ where
  fits t ht := (hkeeps t ht).1
  slices := List.prefix_append _ _
  own t ht := by
    rcases List.mem_append.mp ht with ht | ht
    · exact (hkeeps t (hfits t ht)).1
    · rwa [List.mem_singleton.mp ht]
  reads t ht := (hkeeps t ht).2.1
  apart t ht hapart t' ht' := by
    rcases List.mem_append.mp ht' with ht' | ht'
    · exact hapart t' ht'
    · rw [List.mem_singleton.mp ht']
      exact (hkeeps t ht).2.2 hapart

theorem step_stepped [Inhabited α] (grow : Nat → Nat → Nat)
    (hfits : ∀ s ∈ c.slices, s.Fits c.mem) (m : Move α) :
    Stepped c (c.writes m) (c.step grow m) := by
  cases m with
  | make data cap =>
    refine .snoc hfits (make_fits ..) fun t ht => ?_
    obtain ⟨ht', hread, hapart⟩ := make_moves (s := .nil) c.mem data cap t ht (.inl rfl)
    exact ⟨ht', fun _ => hread, fun _ => hapart.symm⟩
  | window i lo hi =>
    simp only [step]
    cases hs : c.slices[i]? with
    | none => exact .refl hfits
    | some s =>
      have hmem := List.mem_of_getElem? hs
      simp only
      split_ifs with hbounds
      · refine .snoc hfits ((hfits s hmem).window hbounds.1 hbounds.2) fun t ht => ?_
        exact ⟨ht, fun _ => rfl, fun hapart => (hapart s hmem).window lo hi⟩
      · exact .refl hfits
  | store i j a =>
    simp only [step, writes]
    cases hs : c.slices[i]? with
    | none => exact .refl hfits
    | some s =>
      have hmem := List.mem_of_getElem? hs
      simp only
      split_ifs with hj
      · have hlen := (hfits s hmem).len_le
        have hroom := (hfits s hmem).room (by omega)
        have hput : ∀ t : Slice, t.Fits c.mem → t.Fits (c.mem.put s.array (s.off + j) [a]) :=
          fun t ht => ht.put (by simp; omega)
        refine ⟨hput, List.prefix_refl _, fun t ht => hput t (hfits t ht), fun t ht hne => ?_,
          fun _ _ h => h⟩
        have harray : t.array ≠ s.array := fun heq => hne (by rw [heq])
        exact (ht.of_array_eq fun _ => Heap.array_put_of_ne harray).2
      · exact .refl hfits
  | append i data =>
    simp only [step, writes]
    cases hs : c.slices[i]? with
    | none => exact .refl hfits
    | some s =>
      have hmem := List.mem_of_getElem? hs
      have hs' := hfits s hmem
      refine .snoc hfits (append_fits hs') fun t ht => ⟨hs'.append ht, fun hne => ?_, fun hapart => ?_⟩
      · unfold Slice.append
        split_ifs with hroom
        · by_cases hdata : data = []
          · subst hdata
            rw [Heap.put_nil]
          · have harray : t.array ≠ s.array := fun heq => hne (by simp [hdata, hroom, heq])
            exact (ht.of_array_eq fun _ => Heap.array_put_of_ne harray).2
        · exact (make_moves (s := .nil) _ _ _ t ht (.inl rfl)).2.1
      · exact (append_moves t ht (hapart s hmem).symm).2.2.symm

end Holder

end Memory
