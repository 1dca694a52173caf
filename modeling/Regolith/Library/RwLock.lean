import Mathlib.Logic.Basic

-- A reader-writer lock that is poisoned by a panic. A body run under a guard
-- either returns or panics, and leaves the value it was given changed either way.
structure RwLock (α : Type) where
  poisoned : Bool
  value : α

namespace RwLock

variable {α ε β : Type}

inductive Mode where
  | read
  | write
  deriving DecidableEq

def new (value : α) : RwLock α := ⟨false, value⟩

-- The lock once a guard is dropped: only a panic under a write guard poisons it.
def release (lock : RwLock α) (mode : Mode) (panicking : Bool) (value : α) : RwLock α :=
  match mode with
  | .read => ⟨lock.poisoned, value⟩
  | .write => ⟨lock.poisoned || panicking, value⟩

-- Acquire, run and release. A poisoned lock gives no guard.
def hold (lock : RwLock α) (mode : Mode) (body : α → Except ε β × α) :
    Option (Except ε β × RwLock α) :=
  if lock.poisoned then none
  else
    let (result, value) := body lock.value
    some (result, lock.release mode (!result.isOk) value)

theorem hold_poisoned {lock : RwLock α} (h : lock.poisoned = true) (mode : Mode)
    (body : α → Except ε β × α) : lock.hold mode body = none := by
  simp [hold, h]

theorem hold_clean {lock : RwLock α} (h : lock.poisoned = false) (mode : Mode)
    (body : α → Except ε β × α) :
    lock.hold mode body =
      some ((body lock.value).1,
        lock.release mode (!(body lock.value).1.isOk) (body lock.value).2) := by
  simp [hold, h]

-- Whatever a reader does, it cannot poison the lock.
@[simp] theorem release_read_poisoned (lock : RwLock α) (panicking : Bool) (value : α) :
    (lock.release .read panicking value).poisoned = lock.poisoned := rfl

@[simp] theorem release_write_poisoned (lock : RwLock α) (panicking : Bool) (value : α) :
    (lock.release .write panicking value).poisoned = (lock.poisoned || panicking) := rfl

@[simp] theorem release_returned (lock : RwLock α) (mode : Mode) (value : α) :
    lock.release mode false value = { lock with value := value } := by
  cases mode <;> simp [release]

@[simp] theorem release_value (lock : RwLock α) (mode : Mode) (panicking : Bool) (value : α) :
    (lock.release mode panicking value).value = value := by
  cases mode <;> rfl

end RwLock
