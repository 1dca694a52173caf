import Regolith.Ffi.Iter.Framing
import Regolith.Go.Iter.Plain

-- The integers of one batch, from its frame to `Key`.
namespace Regolith.Go

open Ffi Ffi.RegolithIter

-- The conversions that the frame of these keys goes through keep their values.
structure Converted (keys : List Bytes) : Prop where
  length : (Int32.ofNat (PrefixCode.pack key_record keys).length).toInt =
    (PrefixCode.pack key_record keys).length
  entry : ∀ (front : List Bytes) (key : Bytes) (back : List Bytes), keys = front ++ key :: back →
    let at_ := (PrefixCode.pack key_record front).length + 4
    (Int32.ofInt at_).toInt = at_ ∧ (Int32.ofNat key.length).toInt = key.length ∧
      (Int32.ofInt at_ + Int32.ofNat key.length).toInt = (at_ + key.length : Nat)

-- `refill` finds as many entries as there are keys, and `Key` reads each of them back.
structure Iter.Delivers {σ : Type} [EntrySource σ] (it : Iter σ) (keys : List Bytes) : Prop where
  result : it.refill.1 = .ok (!keys.isEmpty, none)
  count : it.refill.2.ents.length = keys.length
  key : ∀ (index : Nat) (key : Bytes), keys[index]? = some key →
    Iter.Key { it.refill.2 with pos := index } = .ok (some key)

-- An entry of which only the key matters.
def bare (key : Bytes) : Item := ⟨key, []⟩

variable {keys : List Bytes}

theorem key_frame_bare (keys : List Bytes) :
    key_frame (keys.map bare) = PrefixCode.pack key_record keys := by
  simp [key_frame_eq_pack, bare, Function.comp_def]

theorem converted_iff :
    Converted keys ↔ (PrefixCode.pack key_record keys).length < 2 ^ 31 := by
  constructor
  · intro h
    have hlt := (Int32.ofNat (PrefixCode.pack key_record keys).length).toInt_lt
    rw [h.length] at hlt
    omega
  · intro hshort
    refine ⟨Int32.toInt_ofNat_of_lt hshort, ?_⟩
    rintro front key back rfl
    simp only [PrefixCode.pack_append, PrefixCode.pack_cons, List.length_append,
      length_key_record] at hshort
    have hoff : (Int32.ofInt ((PrefixCode.pack key_record front).length + 4 : Nat)).toInt =
        ((PrefixCode.pack key_record front).length + 4 : Nat) :=
      Int32.toInt_ofInt_of_le (by omega) (by omega)
    have hlen : (Int32.ofNat key.length).toInt = key.length := Int32.toInt_ofNat_of_lt (by omega)
    refine ⟨hoff, hlen, ?_⟩
    rw [Int32.toInt_add, hoff, hlen, Int.bmod_eq_of_le (by omega) (by omega)]
    omega

namespace Iter

variable {σ : Type} [EntrySource σ] {it : Iter σ}

theorem refill_of_keys (hkeys : keys ≠ [])
    (h : (regolith_iter_next_batch it.i batchEntries .writable .writable .writable .writable).1 =
      guard .writable (.ok ⟨PrefixCode.pack key_record keys, keys.length⟩)) :
    it.refill = it.load (regolith_iter_next_batch it.i batchEntries .writable .writable .writable
      .writable).2 (key_frame (keys.map bare)) := by
  obtain ⟨key, rest, rfl⟩ := List.exists_cons_of_ne_nil hkeys
  have hframe : PrefixCode.pack key_record (key :: rest) ≠ [] :=
    fun hnil => by simpa using congrArg List.length hnil
  rw [refill_of_batch it h (by simp) hframe, key_frame_bare]

theorem delivers_of_short (hshort : (PrefixCode.pack key_record keys).length < 2 ^ 31)
    (h : (regolith_iter_next_batch it.i batchEntries .writable .writable .writable .writable).1 =
      guard .writable (.ok ⟨PrefixCode.pack key_record keys, keys.length⟩)) : it.Delivers keys := by
  rcases eq_or_ne keys [] with rfl | hkeys
  · rw [PrefixCode.pack_nil] at h
    have hrefill := refill_of_empty it h
    exact ⟨by rw [hrefill]; rfl, by rw [hrefill]; rfl, by simp⟩
  · rw [← key_frame_bare] at hshort
    have hrefill := refill_of_keys hkeys h
    rw [load_short hshort] at hrefill
    refine ⟨by simp [hrefill, hkeys], by simp [hrefill], fun index key hkey => ?_⟩
    obtain ⟨e, he, hcut⟩ := cut_offsets [] (by simpa using hshort)
      (show (keys.map bare)[index]? = some (bare key) by simp [hkey])
    have hentry : (Iter.ents { it.refill.2 with pos := index })[index]? = some e := by
      simpa [hrefill] using he
    rw [Key_of_entry hentry]
    simp only [hrefill]
    rw [← List.nil_append (key_frame _), hcut]
    rfl

-- Were the frame longer, what is parsed of it would fall short of it.
theorem Delivers.short (hrecords : ∀ key ∈ keys, Recordable key)
    (h : (regolith_iter_next_batch it.i batchEntries .writable .writable .writable .writable).1 =
      guard .writable (.ok ⟨PrefixCode.pack key_record keys, keys.length⟩))
    (hdelivers : it.Delivers keys) : (PrefixCode.pack key_record keys).length < 2 ^ 31 := by
  rcases eq_or_ne keys [] with rfl | hkeys
  · simp
  · have hrefill := refill_of_keys hkeys h
    obtain ⟨hresult, hcount, hkey⟩ := hdelivers
    rw [hrefill] at hresult hcount hkey
    obtain ⟨buf, ents, hbuf, hshort, hparse, hstate⟩ :=
      load_found (hresult.trans (by simp [hkeys]))
    rw [hstate] at hcount hkey
    have hframable : Framable (keys.map bare) := by
      simpa [Framable, bare, Recordable] using hrecords
    have hcut (index : Nat) (e : entry) (x : Item)
        (he : ents[([] : List entry).length + index]? = some e)
        (hx : (keys.map bare)[index]? = some x) : cut buf e = .ok x.key := by
      rw [List.length_nil, Nat.zero_add] at he
      obtain ⟨key, hsome, rfl⟩ := by simpa using hx
      have hread := hkey index key hsome
      rw [Key_of_entry he] at hread
      exact cut_of_map hread
    obtain ⟨count, -, hlength, hframe⟩ :=
      parse_conforms [] (by simpa using hbuf) hshort (by simp) hframable hparse hcut
    have hall : count = keys.length := by
      simp only [List.length_nil, Nat.zero_add] at hlength hcount
      exact hlength.symm.trans hcount
    rw [List.nil_append, hall, List.take_of_length_le (by simp), key_frame_bare] at hframe
    exact hframe ▸ hshort

end Iter

-- Keys that are a few bytes shorter than the engine lets them be always fit.
theorem records_fit (hlength : keys.length ≤ batchEntries)
    (hkeys : ∀ key ∈ keys, key.length ≤ 8388603) : (keys.map (4 + ·.length)).sum < 2 ^ 31 := by
  have hsum : (keys.map (4 + ·.length)).sum ≤ keys.length * 8388607 := by
    clear hlength
    induction keys with
    | nil => simp
    | cons key keys ih =>
        simp only [List.forall_mem_cons] at hkeys
        have hrest := ih hkeys.2
        simp only [List.map_cons, List.sum_cons, List.length_cons]
        omega
  have hbatch : batchEntries = 256 := rfl
  omega

-- Every batch that `refill` is answered with, whatever the iterator has been used for:
-- its integers survive, and its keys come out, exactly when the frame stays below 2 GiB.
theorem batch_converted_iff {σ : Type} [EntrySource σ] (it : Iter σ) {batch : KeyBatch}
    (h : (regolith_iter_next_batch it.i batchEntries .writable .writable .writable .writable).1.out =
      some batch) :
    ∃ keys : List Bytes, batch = ⟨PrefixCode.pack key_record keys, keys.length⟩ ∧
      keys.length ≤ batchEntries ∧ (∀ key ∈ keys, Recordable key) ∧
      (Converted keys ↔ (keys.map (4 + ·.length)).sum < 2 ^ 31) ∧
      (it.Delivers keys ↔ (keys.map (4 + ·.length)).sum < 2 ^ 31) ∧
      ((∀ key ∈ keys, key.length ≤ 8388603) → (keys.map (4 + ·.length)).sum < 2 ^ 31) := by
  obtain ⟨keys, hlength, hkeys, rfl, hreply⟩ := next_batch_frames h
  refine ⟨keys, rfl, hlength, hkeys, ?_, ?_, records_fit hlength⟩
  · rw [← length_pack_record]
    exact converted_iff
  · rw [← length_pack_record]
    exact ⟨Iter.Delivers.short hkeys hreply, fun hshort => Iter.delivers_of_short hshort hreply⟩

theorem batch_converted_iff_two :
    let it : Iter (Source (ListCursor noBad) (ListTxn noBad) (ListStream noBad)) :=
      .opened (ListCursor.iter noBad [([1], [10]), ([2, 2], [])] ⟨none, none, false, false⟩)
        ⟨[], [], [], false, false⟩
    ∃ keys : List Bytes,
      (⟨[1, 0, 0, 0, 1, 2, 0, 0, 0, 2, 2], 2⟩ : KeyBatch) =
        ⟨PrefixCode.pack key_record keys, keys.length⟩ ∧
      keys.length ≤ batchEntries ∧ (∀ key ∈ keys, Recordable key) ∧
      (Converted keys ↔ (keys.map (4 + ·.length)).sum < 2 ^ 31) ∧
      (it.Delivers keys ↔ (keys.map (4 + ·.length)).sum < 2 ^ 31) ∧
      ((∀ key ∈ keys, key.length ≤ 8388603) → (keys.map (4 + ·.length)).sum < 2 ^ 31) :=
  batch_converted_iff _ (by decide)

section LongKeys

-- One batch of long keys, as the boundary frames it.
theorem longKeys_batch {tail : Nat} (hkeys : tail + 1 < 2 ^ 32) :
    (regolith_iter_next_batch (over_snapshot (ListTxn noBad) (ListStream noBad)
        (ListCursor.start noBad (longKeys tail)) keysOfAll.bounds) batchEntries .writable .writable
        .writable .writable).1 =
      Ffi.guard .writable
        (.ok ⟨PrefixCode.pack key_record ((longKeys tail).entries.map (·.key)), 256⟩) := by
  have hwalks := Source.snapshot_walks (T := ListTxn noBad) (S := ListStream noBad)
    ListCursor.soundLaws keysOfAll.bounds (longKeys tail).entries
  rw [← range_eq_listing, range_keysOfAll] at hwalks
  have hplaced : Placed keysOfAll.bounds (longKeys tail).entries
      (Source.OverSnapshot (·.contents.entries) (longKeys tail).entries) Source.Cut .start
      (over_snapshot (ListTxn noBad) (ListStream noBad) (ListCursor.start noBad (longKeys tail))
        keysOfAll.bounds) := placed_over rfl
  have hbounds : (over_snapshot (ListTxn noBad) (ListStream noBad)
      (ListCursor.start noBad (longKeys tail)) keysOfAll.bounds).bounds.keys_only = true :=
    bounds_keys_only keysOfAll
  have hcoming : Upcoming Source.Cut none (longKeys tail).entries (over_snapshot (ListTxn noBad)
      (ListStream noBad) (ListCursor.start noBad (longKeys tail)) keysOfAll.bounds) :=
    hplaced.upcoming hwalks
  have hyields := next_batch_yields (by simp) hcoming rfl (.inr rfl)
    (show batchEntries ≠ 0 by decide) .writable
  rw [hbounds, gathered_longKeys] at hyields
  rcases hyields with ⟨hlong, -⟩ | ⟨-, hover⟩
  · exact absurd (framable_longKeys hkeys) hlong
  · rw [hover.reply, key_frame_eq_pack, length_longKeys]

end LongKeys

-- 256 keys of the greatest length that the engine accepts by default: the boundary frames
-- them all, and `refill` panics over the frame.
theorem long_batch_crash :
    let keys := (longKeys 8388607).entries.map (·.key)
    let it : Iter (Source (ListCursor noBad) (ListTxn noBad) (ListStream noBad)) :=
      .opened (over_snapshot _ _ (.start noBad (longKeys 8388607)) keysOfAll.bounds) keysOfAll
    DB.NewIter (ListTxn noBad) (ListStream noBad) ⟨some (longKeys 8388607), false⟩ keysOfAll =
        .ok it ∧
      (∀ key ∈ keys, key.length = 8388608) ∧
      (regolith_iter_next_batch it.i batchEntries .writable .writable .writable .writable).1.out =
        some ⟨PrefixCode.pack key_record keys, 256⟩ ∧
      it.refill.1 = .error (.panic "gobytes: length out of range") ∧
      ¬Converted keys ∧ ¬it.Delivers keys := by
  obtain ⟨tail, htail⟩ : ∃ tail : Nat, tail = 8388607 := ⟨_, rfl⟩
  have hlengths : 8388608 = tail + 1 := by omega
  rw [hlengths, ← htail]
  intro keys it
  have hbatch : (regolith_iter_next_batch it.i batchEntries .writable .writable .writable
      .writable).1 = Ffi.guard .writable (.ok ⟨PrefixCode.pack key_record keys, 256⟩) :=
    longKeys_batch (by omega)
  have hframe : (PrefixCode.pack key_record keys).length = 256 * (tail + 5) := by
    rw [← key_frame_eq_pack]
    exact length_longKeys_frame tail
  have hcrash : it.refill.1 = .error (.panic "gobytes: length out of range") := by
    have hsome : PrefixCode.pack key_record keys ≠ [] := by
      rw [← List.length_pos_iff]
      omega
    have hrefill := Iter.refill_of_batch it hbatch (by simp) hsome
    rw [hrefill, Iter.load, GoBytes_long (by simp only; omega) (by simp only; omega)]
  refine ⟨rfl, ?_, by rw [hbatch]; rfl, hcrash, ?_, ?_⟩
  · simp [keys, longKeys, longKey]
  · rw [converted_iff]
    omega
  · intro hdelivers
    have hresult := hdelivers.result
    rw [hcrash] at hresult
    simp at hresult

end Regolith.Go
