import Regolith.Ffi.Iter.Theorems
import Regolith.Library.PrefixCode

-- The frame of a batch: one record for each key, `[u32 length][bytes]`.
namespace Regolith.Ffi

def key_record (key : Bytes) : Bytes :=
  Radix.toLE 4 key.length ++ key

def Recordable (key : Bytes) : Prop := key.length < 2 ^ 32

-- How a reader takes a record off the front; it fails where the bytes run out.
def read_record (_index : Nat) (rest : Bytes) : Except Unit (Bytes × Bytes) :=
  let len := Radix.ofLE (rest.take 4)
  if rest.length < 4 + len then .error ()
  else .ok ((rest.drop 4).take len, (rest.drop 4).drop len)

section Code

@[simp] theorem length_key_record (key : Bytes) : (key_record key).length = 4 + key.length := by
  simp [key_record]

theorem read_key_record (index : Nat) {key : Bytes} (rest : Bytes) (h : Recordable key) :
    read_record index (key_record key ++ rest) = .ok (key, rest) := by
  have htake : (key_record key ++ rest).take 4 = Radix.toLE 4 key.length := by
    rw [key_record, List.append_assoc]
    exact List.take_left' (Radix.length_toLE 4 _)
  have hdrop : (key_record key ++ rest).drop 4 = key ++ rest := by
    rw [key_record, List.append_assoc]
    exact List.drop_left' (Radix.length_toLE 4 _)
  have hlen : Radix.ofLE (Radix.toLE 4 key.length) = key.length :=
    Radix.ofLE_toLE_of_lt 4 _ (by simpa [Recordable] using h)
  have hlong : ¬(key_record key ++ rest).length < 4 + key.length := by simp
  simp only [read_record, htake, hdrop, hlen, hlong, if_false, List.take_left, List.drop_left]

theorem of_read_record {index : Nat} {bytes key rest : Bytes}
    (h : read_record index bytes = .ok (key, rest)) :
    Recordable key ∧ bytes = key_record key ++ rest := by
  simp only [read_record] at h
  split at h
  · simp at h
  · next hlong =>
      simp only [Except.ok.injEq, Prod.mk.injEq] at h
      obtain ⟨rfl, rfl⟩ := h
      have hhead : (bytes.take 4).length = 4 := by
        rw [List.length_take]
        omega
      have hlen : ((bytes.drop 4).take (Radix.ofLE (bytes.take 4))).length =
          Radix.ofLE (bytes.take 4) := by
        rw [List.length_take, List.length_drop]
        omega
      have hlt := Radix.ofLE_lt (bytes.take 4)
      have hle := Radix.toLE_ofLE (bytes.take 4)
      rw [hhead] at hlt hle
      refine ⟨?_, ?_⟩
      · rw [Recordable, hlen]
        simpa using hlt
      · rw [key_record, hlen, hle, List.append_assoc, List.take_append_drop, List.take_append_drop]

theorem record_code : PrefixCode.Code key_record read_record Recordable where
  encode_ne_nil key h := by simpa using congrArg List.length h
  read_encode index _ rest h := read_key_record index rest h
  of_read h := of_read_record h

theorem key_frame_eq_pack (xs : List Item) :
    key_frame xs = PrefixCode.pack key_record (xs.map (·.key)) := by
  simp [key_frame, PrefixCode.pack, key_record, List.flatMap_map]

theorem length_pack_record (keys : List Bytes) :
    (PrefixCode.pack key_record keys).length = (keys.map (4 + ·.length)).sum := by
  induction keys with
  | nil => rfl
  | cons key keys ih => simp [ih]

end Code

namespace RegolithIter

variable {σ : Type} [EntrySource σ] {it : RegolithIter σ}

-- `after` is `batch` with up to `rounds` more keys, framed and counted.
def Grows (rounds : Nat) (batch after : KeyBatch) : Prop :=
  ∃ keys : List Bytes, keys.length ≤ rounds ∧ (∀ key ∈ keys, Recordable key) ∧
    after = ⟨batch.frame ++ PrefixCode.pack key_record keys, batch.count + keys.length⟩

theorem Grows.refl (rounds : Nat) (batch : KeyBatch) : Grows rounds batch batch :=
  ⟨[], Nat.zero_le _, by simp, by simp⟩

theorem Grows.framed {rounds : Nat} {batch after : KeyBatch} {key : Bytes} (hkey : Recordable key)
    (h : Grows rounds ⟨batch.frame ++ Radix.toLE 4 key.length ++ key, batch.count + 1⟩ after) :
    Grows (rounds + 1) batch after := by
  obtain ⟨keys, hlength, hkeys, rfl⟩ := h
  refine ⟨key :: keys, by simpa using hlength, by simpa using ⟨hkey, hkeys⟩, ?_⟩
  simp [key_record, Nat.add_assoc, Nat.add_comm 1]

-- Whatever the source answers, the rounds of a batch frame and count the same keys.
theorem gather_grows (rounds : Nat) {batch after : KeyBatch} {retained : Nat}
    (h : (it.gather rounds batch retained).1 = .ok after) : Grows rounds batch after := by
  induction rounds generalizing it batch retained with
  | zero =>
      obtain rfl : batch = after := Except.ok.inj h
      exact .refl 0 batch
  | succ rounds ih =>
      rcases hmove : it.advance_in_batch with ⟨result, next⟩
      simp only [gather, hmove] at h
      rcases result with (failure | payload) | (_ | _)
      · simp only at h
        split at h
        · simp [fail] at h
        · exact (Except.ok.inj h) ▸ .refl _ _
      · simp at h
      · exact (Except.ok.inj h) ▸ .refl _ _
      · simp only at h
        split at h
        · exact (Except.ok.inj h) ▸ .refl _ _
        · split at h
          · simp [fail] at h
          · next hshort =>
              refine .framed (not_le.mp hshort) ?_
              split at h
              · exact ih h
              · split at h
                · exact (Except.ok.inj h) ▸ .refl _ _
                · exact ih h

-- A batch that is answered: its keys, framed and counted.
theorem next_batch_frames {max_entries : Nat} {out out_len out_count err : OutParam}
    {batch : KeyBatch}
    (h : (regolith_iter_next_batch it max_entries out out_len out_count err).1.out = some batch) :
    ∃ keys : List Bytes, keys.length ≤ max_entries ∧ (∀ key ∈ keys, Recordable key) ∧
      batch = ⟨PrefixCode.pack key_record keys, keys.length⟩ ∧
      (regolith_iter_next_batch it max_entries out out_len out_count err).1 =
        guard err (.ok batch) := by
  simp only [regolith_iter_next_batch] at h ⊢
  split at h
  · simp at h
  · next hnull =>
      split at h
      · simp at h
      · next hmax =>
          simp only [hnull, hmax, if_false]
          cases hpending : it.invalidate_batch.pending with
          | some failure => simp [hpending] at h
          | none =>
              simp only [hpending] at h ⊢
              rcases hgather : it.invalidate_batch.gather max_entries ⟨[], 0⟩ 0 with
                ⟨(failure | payload) | after, it'⟩
              · simp [hgather, guard] at h
              · simp [hgather, guard] at h
              · simp only [hgather, guard_ok_out, Option.some.injEq] at h
                subst h
                obtain ⟨keys, hlength, hkeys, rfl⟩ :=
                  gather_grows max_entries (congrArg Prod.fst hgather)
                exact ⟨keys, hlength, hkeys, by simp, rfl⟩

end RegolithIter

end Regolith.Ffi
