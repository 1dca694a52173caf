import Regolith.Ffi.Txn

namespace Regolith.Ffi.TxnInner

variable {T R : Type}

-- A transaction that can be reached: neither resolved nor poisoned.
structure Usable (inner : TxnInner T) (txn : T) : Prop where
  clean : inner.txn.poisoned = false
  open_ : inner.txn.value = some txn

def holding (inner : TxnInner T) (txn : Option T) : TxnInner T :=
  { inner with txn := { inner.txn with value := txn } }

@[simp] theorem holding_poisoned (inner : TxnInner T) (txn : Option T) :
    (inner.holding txn).txn.poisoned = inner.txn.poisoned := rfl

@[simp] theorem holding_value (inner : TxnInner T) (txn : Option T) :
    (inner.holding txn).txn.value = txn := rfl

@[simp] theorem holding_readonly (inner : TxnInner T) (txn : Option T) :
    (inner.holding txn).readonly = inner.readonly := rfl

theorem with_txn_usable {inner : TxnInner T} {txn : T} (h : inner.Usable txn)
    (body : T → Except Payload R × T) :
    inner.with_txn body = ((body txn).1.mapError .panic, inner.holding (some (body txn).2)) := by
  simp only [with_txn, RwLock.hold_clean h.clean, h.open_]
  cases (body txn).1 <;> rfl

theorem with_txn_poisoned {inner : TxnInner T} (h : inner.txn.poisoned = true)
    (body : T → Except Payload R × T) : inner.with_txn body = (fail unusable, inner) := by
  simp only [with_txn, RwLock.hold_poisoned h]

theorem with_txn_resolved {inner : TxnInner T} (hclean : inner.txn.poisoned = false)
    (h : inner.txn.value = none) (body : T → Except Payload R × T) :
    inner.with_txn body = (fail (.code DISCARDED), inner.holding none) := by
  simp only [with_txn, RwLock.hold_clean hclean, h]
  rfl

theorem holding_self {inner : TxnInner T} {txn : Option T} (h : inner.txn.value = txn) :
    inner.holding txn = inner := by
  subst h
  rfl

-- A call that does not reach the transaction fails and leaves everything as it is.
theorem with_txn_unreached {inner : TxnInner T} (h : ∀ txn, ¬inner.Usable txn)
    (body : T → Except Payload R × T) :
    ∃ failure, inner.with_txn body = (fail failure, inner) := by
  cases hpoisoned : inner.txn.poisoned with
  | true => exact ⟨unusable, with_txn_poisoned hpoisoned body⟩
  | false =>
      cases hvalue : inner.txn.value with
      | some txn => exact absurd ⟨hpoisoned, hvalue⟩ (h txn)
      | none =>
          refine ⟨.code DISCARDED, ?_⟩
          rw [with_txn_resolved hpoisoned hvalue, holding_self hvalue]

theorem take_live {inner : TxnInner T} {txn : T} (h : inner.Usable txn) :
    inner.take = (.ok txn, inner.holding none) := by
  simp [take, RwLock.hold_clean h.clean, h.open_, Except.isOk, Except.toBool, holding]

theorem take_resolved {inner : TxnInner T} (hclean : inner.txn.poisoned = false)
    (h : inner.txn.value = none) : inner.take = (fail (.code DISCARDED), inner) := by
  have hsame := holding_self h
  simp_all [take, RwLock.hold_clean hclean, Except.isOk, Except.toBool, holding]

section Resolve

variable {S : Type} [OwnedTransaction T S] {inner : TxnInner T} {txn : T}

theorem commit_live (h : inner.Usable txn) (err : OutParam) :
    (regolith_txn_commit inner err).2 =
      (some (OwnedTransaction.commit txn).2, inner.holding none) := by
  simp only [regolith_txn_commit, take_live h]

theorem commit_resolved (hclean : inner.txn.poisoned = false) (h : inner.txn.value = none)
    (err : OutParam) :
    regolith_txn_commit inner err = (guard err (fail (.code DISCARDED)), none, inner) := by
  simp [regolith_txn_commit, take_resolved hclean h, fail]

theorem discard_live (h : inner.Usable txn) (err : OutParam) :
    regolith_txn_discard inner err =
      (guard err (.ok ()), some (OwnedTransaction.rollback txn), inner.holding none) := by
  simp only [regolith_txn_discard, take_live h]

theorem discard_resolved (hclean : inner.txn.poisoned = false) (h : inner.txn.value = none)
    (err : OutParam) : regolith_txn_discard inner err = (guard err (.ok ()), none, inner) := by
  simp [regolith_txn_discard, take_resolved hclean h, fail, Failure.code]

theorem free_live (h : inner.Usable txn) (err : OutParam) :
    regolith_txn_free inner err =
      (guard err (.ok ()), some (OwnedTransaction.rollback txn), inner.holding none) := by
  simp only [regolith_txn_free, take_live h]

theorem free_resolved (hclean : inner.txn.poisoned = false) (h : inner.txn.value = none)
    (err : OutParam) : regolith_txn_free inner err = (guard err (.ok ()), none, inner) := by
  simp [regolith_txn_free, take_resolved hclean h, fail]

end Resolve

end Regolith.Ffi.TxnInner
