import Regolith.Ffi.Abi.Iter

-- An entry point as its caller has it: what it writes ends up in variables of the caller's own,
-- and what is left of it are its calls of the engine.
namespace Regolith.Ffi.Abi

open Program

abbrev engineInterface : Interface := ⟨EngineCall, fun c => Except Payload c.Reply⟩

-- The variables behind the out-params, `zero` as they are declared.
structure Locals where
  val : Option Bytes
  valLen : Nat
  handle : Option Bytes
  found : Bool
  it : Option Iter

namespace Locals

def zero : Locals := ⟨none, 0, none, false, none⟩

def write (l : Locals) : Write → Locals
  | .ptr bytes => { l with val := bytes }
  | .len len => { l with valLen := len }
  | .value_handle slice => { l with handle := slice }
  | .flag value => { l with found := value }
  | .iter it => { l with it := some it }
  | .db | .txn _ | .count _ => l

end Locals

variable {γ α : Type}

def stored : Prog interface α → Locals → Prog engineInterface (α × Locals)
  | .ret value, l => .ret (value, l)
  | .call (.engine c) next, l => .call c fun r => stored (next r) l
  | .call (.write w) next, l => stored (next ()) (l.write w)

def storing (Φ : Spec engineInterface γ) : Spec interface (γ × Locals)
  | .engine c, Q, (g, l) => Φ c (fun r g => Q r (g, l)) g
  | .write w, Q, (g, l) => Q () (g, l.write w)

theorem wp_stored {Φ : Spec engineInterface γ} (p : Prog interface α) (l : Locals)
    (Q : α × Locals → γ → Prop) (g : γ) :
    wp Φ (stored p l) Q g = wp (storing Φ) p (fun value (g, l) => Q (value, l) g) (g, l) := by
  induction p generalizing l g with
  | ret value => rfl
  | call a next ih =>
    cases a with
    | engine c =>
      simp only [stored, wp, storing]
      congr 1
      funext r g
      exact ih r l g
    | write w => exact ih () (l.write w) g

end Regolith.Ffi.Abi
