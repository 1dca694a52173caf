import Mathlib.Data.List.Basic

-- Self-delimiting items written one after another with no header and no count,
-- and a reader that takes them off the front until nothing is left.
namespace PrefixCode

variable {α β ε : Type*}

-- `read` is told the index of the item it is about to read, so that its fault
-- can name it. The laws say that it undoes `encode` on the valid items and
-- accepts nothing else.
structure Code (encode : α → List β) (read : Nat → List β → Except ε (α × List β))
    (valid : α → Prop) : Prop where
  encode_ne_nil : ∀ item, encode item ≠ []
  read_encode : ∀ index item rest, valid item → read index (encode item ++ rest) = .ok (item, rest)
  of_read : ∀ {index bytes item rest}, read index bytes = .ok (item, rest) →
    valid item ∧ bytes = encode item ++ rest

def pack (encode : α → List β) (items : List α) : List β :=
  items.flatMap encode

@[simp] theorem pack_nil (encode : α → List β) : pack encode [] = [] := rfl

@[simp] theorem pack_cons (encode : α → List β) (item : α) (items : List α) :
    pack encode (item :: items) = encode item ++ pack encode items := by
  simp [pack]

@[simp] theorem pack_append (encode : α → List β) (items more : List α) :
    pack encode (items ++ more) = pack encode items ++ pack encode more := by
  simp [pack]

-- The complete items at the front of some bytes, and the fault that ends the
-- reading, if one does.
inductive Scan (read : Nat → List β → Except ε (α × List β)) :
    Nat → List β → List α → Option ε → Prop where
  | done (index : Nat) : Scan read index [] [] none
  | stuck {index : Nat} {bytes : List β} {fault : ε} : bytes ≠ [] →
      read index bytes = .error fault → Scan read index bytes [] (some fault)
  | item {index : Nat} {bytes rest : List β} {item : α} {items : List α} {fault : Option ε} :
      bytes ≠ [] → read index bytes = .ok (item, rest) →
      Scan read (index + 1) rest items fault → Scan read index bytes (item :: items) fault

-- How a reading ends at the bytes `rest`: nothing left, or the reader's fault there.
def EndsAt (read : Nat → List β → Except ε (α × List β)) (index : Nat) (rest : List β) :
    Option ε → Prop
  | none => rest = []
  | some fault => rest ≠ [] ∧ read index rest = .error fault

section Laws

variable {encode : α → List β} {read : Nat → List β → Except ε (α × List β)}
  {valid : α → Prop}

theorem Code.length_rest_lt (code : Code encode read valid) {index : Nat} {bytes rest : List β}
    {item : α} (h : read index bytes = .ok (item, rest)) : rest.length < bytes.length := by
  have hne := List.length_pos_iff.mpr (code.encode_ne_nil item)
  rw [(code.of_read h).2, List.length_append]
  omega

-- Every reading ends, because each item takes at least one byte.
theorem Code.exists_scan (code : Code encode read valid) (index : Nat) (bytes : List β) :
    ∃ items fault, Scan read index bytes items fault := by
  induction hlen : bytes.length using Nat.strongRecOn generalizing index bytes with
  | ind count ih =>
      cases bytes with
      | nil => exact ⟨[], none, .done index⟩
      | cons byte tail =>
          cases hread : read index (byte :: tail) with
          | error fault => exact ⟨[], some fault, .stuck (by simp) hread⟩
          | ok pair =>
              obtain ⟨item, rest⟩ := pair
              obtain ⟨items, fault, hscan⟩ :=
                ih rest.length (hlen ▸ code.length_rest_lt hread) (index + 1) rest rfl
              exact ⟨item :: items, fault, .item (by simp) hread hscan⟩

theorem Scan.unique {index : Nat} {bytes : List β} {items items' : List α}
    {fault fault' : Option ε} (h : Scan read index bytes items fault)
    (h' : Scan read index bytes items' fault') : items = items' ∧ fault = fault' := by
  induction h generalizing items' fault' with
  | done index =>
      cases h' with
      | done => exact ⟨rfl, rfl⟩
      | stuck hne _ => exact absurd rfl hne
      | item hne _ _ => exact absurd rfl hne
  | stuck hne hread =>
      cases h' with
      | done => exact absurd rfl hne
      | stuck _ hread' =>
          rw [hread] at hread'
          cases hread'
          exact ⟨rfl, rfl⟩
      | item _ hread' _ =>
          rw [hread] at hread'
          cases hread'
  | item hne hread _ ih =>
      cases h' with
      | done => exact absurd rfl hne
      | stuck _ hread' =>
          rw [hread] at hread'
          cases hread'
      | item _ hread' hscan' =>
          rw [hread] at hread'
          cases hread'
          obtain ⟨rfl, rfl⟩ := ih hscan'
          exact ⟨rfl, rfl⟩

-- What was read is the packing of the items, and the fault is the reader's own
-- at the first byte after them.
theorem Code.scan_split (code : Code encode read valid) {index : Nat} {bytes : List β}
    {items : List α} {fault : Option ε} (h : Scan read index bytes items fault) :
    ∃ rest, bytes = pack encode items ++ rest ∧ (∀ item ∈ items, valid item) ∧
      EndsAt read (index + items.length) rest fault := by
  induction h with
  | done index => exact ⟨[], rfl, by simp, rfl⟩
  | stuck hne hread => exact ⟨_, rfl, by simp, hne, hread⟩
  | item hne hread _ ih =>
      obtain ⟨hvalid, hbytes⟩ := code.of_read hread
      obtain ⟨rest, hrest, hall, hend⟩ := ih
      refine ⟨rest, by rw [hbytes, hrest]; simp, ?_, ?_⟩
      · simpa using ⟨hvalid, hall⟩
      · simpa only [List.length_cons, Nat.add_assoc, Nat.add_comm 1] using hend

theorem Code.scan_append (code : Code encode read valid) {index : Nat} {items more : List α}
    {rest : List β} {fault : Option ε} (hvalid : ∀ item ∈ items, valid item)
    (h : Scan read (index + items.length) rest more fault) :
    Scan read index (pack encode items ++ rest) (items ++ more) fault := by
  induction items generalizing index with
  | nil => exact h
  | cons item items ih =>
      have hne := code.encode_ne_nil item
      have htail : Scan read (index + 1) (pack encode items ++ rest) (items ++ more) fault :=
        ih (fun other ho => hvalid other (by simp [ho]))
          (by simpa only [List.length_cons, Nat.add_assoc, Nat.add_comm 1] using h)
      rw [pack_cons, List.append_assoc]
      exact .item (by simp [hne]) (code.read_encode index item _ (hvalid item (by simp))) htail

theorem Code.scan_pack (code : Code encode read valid) (index : Nat) {items : List α}
    (hvalid : ∀ item ∈ items, valid item) : Scan read index (pack encode items) items none := by
  have h : Scan read index (pack encode items ++ []) (items ++ []) none :=
    code.scan_append hvalid (.done _)
  simpa using h

-- A reading that ends cleanly is the reading of a packing, and conversely.
theorem Code.scan_none_iff (code : Code encode read valid) (index : Nat) (bytes : List β)
    (items : List α) :
    Scan read index bytes items none ↔
      bytes = pack encode items ∧ ∀ item ∈ items, valid item := by
  constructor
  · intro h
    obtain ⟨rest, hbytes, hvalid, rfl⟩ := code.scan_split h
    exact ⟨by simpa using hbytes, hvalid⟩
  · rintro ⟨rfl, hvalid⟩
    exact code.scan_pack index hvalid

-- No proper part of a packing is mistaken for another one: what a packing starts with
-- is the packing of the items it starts with.
theorem Code.pack_prefix_iff (code : Code encode read valid) {items more : List α}
    (hitems : ∀ item ∈ items, valid item) (hmore : ∀ item ∈ more, valid item) :
    pack encode items <+: pack encode more ↔ items <+: more := by
  constructor
  · rintro ⟨rest, hpack⟩
    obtain ⟨tail, fault, htail⟩ := code.exists_scan (0 + items.length) rest
    have hscan : Scan read 0 (pack encode more) (items ++ tail) fault :=
      hpack ▸ code.scan_append hitems htail
    obtain ⟨hsplit, -⟩ := (code.scan_pack 0 hmore).unique hscan
    exact ⟨tail, hsplit.symm⟩
  · rintro ⟨tail, rfl⟩
    exact ⟨pack encode tail, (pack_append encode items tail).symm⟩

end Laws

end PrefixCode
