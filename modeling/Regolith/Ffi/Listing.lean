import Mathlib.Order.Bounds.Defs
import Regolith.Ffi.Bounds
import Regolith.Ffi.Engine
import Regolith.Library.LexOrder
import Regolith.Library.SortedWalk

-- The walk that a range and a direction ask for, over the ascending entries of a store.
namespace Regolith.Ffi

def Ascending (entries : List Item) : Prop :=
  entries.Pairwise fun a b => a.key < b.key

namespace Bounds

variable {b : Bounds} {entries : List Item}

-- All the entries, in iteration order.
def oriented (b : Bounds) (entries : List Item) : List Item :=
  if b.reverse then entries.reverse else entries

-- Iteration order: `before` on keys of entries, `reached` against a target.
def before (b : Bounds) (x y : Item) : Prop :=
  if b.reverse then y.key < x.key else x.key < y.key

instance (b : Bounds) : DecidableRel b.before := fun x y =>
  inferInstanceAs (Decidable (if b.reverse then y.key < x.key else x.key < y.key))

def reached (b : Bounds) (target : Bytes) (x : Item) : Bool :=
  if b.reverse then !decide (target < x.key) else !decide (x.key < target)

-- The entries of the range, in iteration order.
def listing (b : Bounds) (entries : List Item) : List Item :=
  (b.oriented entries).filter (b.contains ·.key)

def above_start (b : Bounds) (key : Bytes) : Prop := ∀ start ∈ b.start, start ≤ key

def below_end (b : Bounds) (key : Bytes) : Prop := ∀ end_ ∈ b.end_, key < end_

-- The bound met first on the walk, and the one met last.
def entered (b : Bounds) (key : Bytes) : Prop :=
  if b.reverse then b.below_end key else b.above_start key

def staying (b : Bounds) (key : Bytes) : Prop :=
  if b.reverse then b.above_start key else b.below_end key

instance (b : Bounds) (key : Bytes) : Decidable (b.entered key) :=
  inferInstanceAs (Decidable (if b.reverse then ∀ end_ ∈ b.end_, key < end_
    else ∀ start ∈ b.start, start ≤ key))

@[simp] theorem entered_forward_none (end_ : Option Bytes) (keys_only : Bool) (key : Bytes) :
    entered ⟨none, end_, false, keys_only⟩ key ↔ True := by
  simp [entered, above_start]

@[simp] theorem entered_forward (start : Bytes) (end_ : Option Bytes) (keys_only : Bool)
    (key : Bytes) : entered ⟨some start, end_, false, keys_only⟩ key ↔ start ≤ key := by
  simp [entered, above_start]

@[simp] theorem entered_reverse_none (start : Option Bytes) (keys_only : Bool) (key : Bytes) :
    entered ⟨start, none, true, keys_only⟩ key ↔ True := by
  simp [entered, below_end]

@[simp] theorem entered_reverse (start : Option Bytes) (end_ : Bytes) (keys_only : Bool)
    (key : Bytes) : entered ⟨start, some end_, true, keys_only⟩ key ↔ key < end_ := by
  simp [entered, below_end]

theorem contains_iff (b : Bounds) (key : Bytes) :
    b.contains key ↔ b.above_start key ∧ b.below_end key := by
  unfold contains above_start below_end
  cases b.start <;> cases b.end_ <;> simp

theorem contains_iff_entered (b : Bounds) (key : Bytes) :
    b.contains key ↔ b.entered key ∧ b.staying key := by
  rw [contains_iff]
  unfold entered staying
  cases b.reverse
  · simp
  · simp [and_comm]

theorem reached_forward (h : b.reverse = false) (target : Bytes) :
    b.reached target = fun x => decide (target ≤ x.key) := by
  funext x
  simp [reached, h, ← decide_not]

theorem reached_reverse (h : b.reverse = true) (target : Bytes) :
    b.reached target = fun x => decide (x.key ≤ target) := by
  funext x
  simp [reached, h, ← decide_not]

theorem before_asymm (x y : Item) (h : b.before x y) : ¬b.before y x := by
  unfold before at *
  split at h
  · simpa [*] using h.le
  · simpa [*] using h.le

theorem before_trans {x y z : Item} (hxy : b.before x y) (hyz : b.before y z) :
    b.before x z := by
  unfold before at *
  split at hxy
  · simp only [*, if_true] at *
    exact hyz.trans hxy
  · simp only [*] at *
    exact hxy.trans hyz

theorem oriented_sorted (b : Bounds) (h : Ascending entries) :
    (b.oriented entries).Pairwise b.before := by
  unfold oriented before
  cases b.reverse
  · exact h
  · simpa using List.pairwise_reverse.mpr h

theorem listing_sorted (b : Bounds) (h : Ascending entries) :
    (b.listing entries).Pairwise b.before :=
  (b.oriented_sorted h).filter _

theorem before_upward (x : Item) : SortedWalk.Upward b.before (b.before x ·) := by
  intro y z hyz hxy
  simp only [decide_eq_true_eq] at *
  exact before_trans hxy hyz

theorem reached_upward (target : Bytes) : SortedWalk.Upward b.before (b.reached target) := by
  intro x y hxy hx
  unfold before at hxy
  cases hreverse : b.reverse
  · rw [reached_forward hreverse] at *
    simp only [hreverse, Bool.false_eq_true, if_false] at hxy
    simpa using (of_decide_eq_true hx).trans hxy.le
  · rw [reached_reverse hreverse] at *
    simp only [hreverse, if_true] at hxy
    simpa using hxy.le.trans (of_decide_eq_true hx)

theorem entered_of_before {x y : Item} (hxy : b.before x y) (hx : b.entered x.key) :
    b.entered y.key := by
  unfold before entered at *
  cases hreverse : b.reverse
  · simp only [hreverse, Bool.false_eq_true, if_false] at *
    exact fun start hstart => (hx start hstart).trans hxy.le
  · simp only [hreverse, if_true] at *
    exact fun end_ hend => hxy.trans (hx end_ hend)

theorem entered_upward : SortedWalk.Upward b.before (b.entered ·.key) := by
  intro x y hxy hx
  simpa using entered_of_before hxy (of_decide_eq_true hx)

theorem staying_of_before {x y : Item} (hxy : b.before x y) (hy : b.staying y.key) :
    b.staying x.key := by
  unfold before staying at *
  cases hreverse : b.reverse
  · simp only [hreverse, Bool.false_eq_true, if_false] at *
    exact fun end_ hend => hxy.trans (hy end_ hend)
  · simp only [hreverse, if_true] at *
    exact fun start hstart => (hy start hstart).trans hxy.le

-- Once a walk that has entered the range leaves it, it stays outside.
theorem leavesOnce {reach : Item → Bool} (hreach : ∀ x, reach x → b.entered x.key) :
    SortedWalk.LeavesOnce b.before reach (b.contains ·.key) := by
  intro x y hx hout hxy
  have hleft : ¬b.staying x.key := by
    intro h
    have hin := (b.contains_iff_entered x.key).mpr ⟨hreach x hx, h⟩
    simp [hin] at hout
  by_contra h
  have hin := (b.contains_iff_entered y.key).mp (by simpa using h)
  exact hleft (staying_of_before hxy hin.2)

-- What a move over all the entries tells about the range.
theorem listing_reach (hascending : Ascending entries) {reach : Item → Bool}
    (hup : SortedWalk.Upward b.before reach) (hreach : ∀ x, reach x → b.entered x.key) :
    (b.listing entries).filter reach =
      match (b.oriented entries).find? reach with
      | none => []
      | some x =>
          if b.contains x.key then x :: (b.listing entries).filter (b.before x ·) else [] := by
  have h := SortedWalk.filter_reach_of_find before_asymm (b.oriented_sorted hascending) hup
    (leavesOnce hreach)
  rw [listing, h]
  cases (b.oriented entries).find? reach <;> rfl

theorem keys_nodup {list : List Item} (hsorted : list.Pairwise b.before) :
    (list.map (·.key)).Nodup := by
  refine List.pairwise_map.mpr (hsorted.imp fun {x y} hxy heq => ?_)
  unfold before at hxy
  split at hxy
  · exact hxy.ne' heq
  · exact hxy.ne heq

-- Sought by its own key, an entry is found.
theorem findIdx_reached {list : List Item} (hsorted : list.Pairwise b.before) {index : Nat}
    (hindex : index < list.length) : list.findIdx (b.reached list[index].key) = index := by
  rw [List.findIdx_eq hindex]
  refine ⟨by simp [reached], fun j hj => ?_⟩
  have hbefore := List.pairwise_iff_getElem.mp hsorted j index (by omega) hindex hj
  unfold before at hbefore
  unfold reached
  split at hbefore
  · simp [*]
  · simp [*]

theorem mem_listing {x : Item} (h : x ∈ b.listing entries) : b.contains x.key :=
  (List.mem_filter.mp h).2

theorem listing_subset {x : Item} (h : x ∈ b.listing entries) : x ∈ entries := by
  have hmem := (List.mem_filter.mp h).1
  unfold oriented at hmem
  split at hmem
  · exact List.mem_reverse.mp hmem
  · exact hmem

end Bounds

section Prefix

theorem byte_between_iff {byte : UInt8} (h : byte ≠ 0xff) (c : UInt8) :
    ¬c < byte ∧ c < byte + 1 ↔ c = byte := by
  have hlast : byte.toNat ≠ 255 := fun heq => h (UInt8.toNat_inj.mp heq)
  have hbyte := byte.toNat_lt
  simp only [UInt8.lt_iff_toNat_lt, ← UInt8.toNat_inj, UInt8.toNat_add]
  simp only [UInt8.reduceToNat]
  omega

theorem pop_prefix_end_iff (bytes : List UInt8) (key : Bytes) :
    (¬key < bytes.reverse ∧ ∀ end_ ∈ pop_prefix_end bytes, key < end_) ↔
      bytes.reverse <+: key := by
  induction bytes with
  | nil => simp [pop_prefix_end]
  | cons last rest ih =>
      rw [List.reverse_cons]
      by_cases hlast : last = 0xff
      · have hgreatest : ∀ byte : UInt8, ¬last < byte := by
          intro byte hlt
          rw [hlast, UInt8.lt_iff_toNat_lt] at hlt
          have hbyte := byte.toNat_lt
          simp only [UInt8.reduceToNat] at hlt
          omega
        have hrest : ¬key < rest.reverse ++ [last] → ¬key < rest.reverse := fun hge hlt =>
          hge (hlt.trans_le (not_lt.mp (LexOrder.not_lt_front (List.prefix_append _ _))))
        rw [LexOrder.prefix_snoc_greatest_iff hgreatest, ← ih]
        simp only [pop_prefix_end, hlast, ne_eq, not_true_eq_false, if_false]
        rw [hlast] at hrest
        tauto
      · rw [← LexOrder.prefix_snoc_iff (byte_between_iff hlast)]
        simp [pop_prefix_end, hlast]

-- The keys from a prefix up to its `prefix_end` are those that start with it.
theorem prefix_end_iff (pre key : Bytes) :
    (pre ≤ key ∧ ∀ end_ ∈ prefix_end pre, key < end_) ↔ pre <+: key := by
  have h := pop_prefix_end_iff pre.reverse key
  rwa [List.reverse_reverse, not_lt] at h

theorem pop_prefix_end_none_iff (bytes : List UInt8) :
    pop_prefix_end bytes = none ↔ ∀ byte ∈ bytes, byte = 0xff := by
  induction bytes with
  | nil => simp [pop_prefix_end]
  | cons last rest ih =>
      rw [List.forall_mem_cons, ← ih]
      by_cases hlast : last = 0xff <;> simp [pop_prefix_end, hlast]

-- The end of a prefix is above every key that starts with it, and nothing below is.
theorem prefix_end_least {pre end_ : Bytes} (h : prefix_end pre = some end_) :
    IsLeast {bound | ∀ key, pre <+: key → key < bound} end_ := by
  constructor
  · intro key hkey
    exact ((prefix_end_iff pre key).mpr hkey).2 end_ h
  · intro bound hbound
    by_contra hlt
    have habove : pre < bound := hbound pre List.prefix_rfl
    have hstarts : pre <+: bound := by
      refine (prefix_end_iff pre bound).mp ⟨habove.le, ?_⟩
      simpa [h] using hlt
    exact lt_irrefl bound (hbound bound hstarts)

-- Prefix iteration is iteration over the keys that start with the prefix.
theorem prefix_range_exact {opts : RegolithIterOptions} {pre : Bytes}
    (hpre : in_opt_bytes opts.pre = some pre) :
    (∀ key, (bounds_from (some opts)).contains key ↔ pre <+: key) ∧
    (prefix_end pre = none ↔ ∀ byte ∈ pre, byte = 0xff) ∧
    ∀ end_, prefix_end pre = some end_ →
      IsLeast {bound | ∀ key, pre <+: key → key < bound} end_ := by
  refine ⟨fun key => ?_, ?_, fun end_ => prefix_end_least⟩
  · rw [Bounds.contains_iff, ← prefix_end_iff]
    simp [bounds_from, hpre, Bounds.above_start, Bounds.below_end]
  · have h := pop_prefix_end_none_iff pre.reverse
    simp only [List.mem_reverse] at h
    exact h

-- Its last byte cannot be counted up, and the bounds given beside it are ignored.
theorem prefix_range_exact_carry :
    let opts : RegolithIterOptions := ⟨⟨some [1, 255], 2⟩, ⟨some [9], 1⟩, ⟨some [0], 1⟩, 1, 0⟩
    (∀ key, (bounds_from (some opts)).contains key ↔ [1, 255] <+: key) ∧
    (prefix_end [1, 255] = none ↔ ∀ byte ∈ ([1, 255] : Bytes), byte = 0xff) ∧
    ∀ end_, prefix_end [1, 255] = some end_ →
      IsLeast {bound | ∀ key, [1, 255] <+: key → key < bound} end_ :=
  prefix_range_exact rfl

end Prefix

end Regolith.Ffi
