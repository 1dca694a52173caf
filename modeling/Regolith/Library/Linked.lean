import Regolith.Library.Program
import Regolith.Library.Served

-- Goroutines linked with the programs that carry out their calls: what was one call is then as
-- many as its program makes, and what others do may come between these.
namespace Goroutine

open Program (Interface)

def Signature.over (S : Signature) (I : Interface) : Signature :=
  ⟨S.Flag, I.Call, I.Reply, S.Answer, S.Method⟩

instance {S : Signature} {I : Interface} [h : DecidableEq S.Flag] : DecidableEq (S.over I).Flag := h

variable {S : Signature} {I : Interface} {α : Type}

def Prog.after : Program.Prog I α → (α → Prog (S.over I)) → Prog (S.over I)
  | .ret value, next => next value
  | .call c k, next => .call c fun r => Prog.after (k r) next

def Prog.linked (program : (c : S.Call) → Program.Prog I (S.Reply c)) : Prog S → Prog (S.over I)
  | .lock mode next => .lock mode (next.linked program)
  | .unlock mode next => .unlock mode (next.linked program)
  | .access flag new next => .access flag new fun value => (next value).linked program
  | .call c next => .after (program c) fun r => (next r).linked program
  | .ret answer => .ret answer

def Object.linked (o : Object S) (program : (c : S.Call) → Program.Prog I (S.Reply c)) :
    Object (S.over I) :=
  ⟨fun m => (o.body m).linked program, o.flags, o.outside⟩

namespace Served

section Rule

variable [DecidableEq S.Flag] {E φ : Type} (o : Object (S.over I)) (serves : Server (S.over I) E)
variable (fails : Faults (S.over I) φ) (O : Linear.Object S.Method S.Answer φ S.Flag)
variable (Rel : (S.Flag → Bool) → E → O.State → Prop)

-- A call of a program under the read side, for the method's failures and whether it had its
-- effect by then.
def attempting (flags : S.Flag → Bool) : Program.Spec I (Call S φ × Option S.Answer) :=
  fun c Q g => ∀ r, ∃ done',
    (∀ now engine x engine', Rel flags engine x → serves engine c r engine' →
      ∃ x', Effect (S := S.over I) O (g.1.noting (fails c r)) now x g.2 done' x' ∧
        Rel flags engine' x') ∧
    Q r (g.1.noting (fails c r), done')

-- And under the write side, for all that is shared.
structure Held (S : Signature) (E X φ : Type) where
  call : Call S φ
  engine : E
  x : X
  done : Option S.Answer

def holding : Program.Spec I (Held S E O.State φ) :=
  fun c Q g => ∀ r engine', serves g.engine c r engine' → ∃ done' x',
    (∀ now, Effect (S := S.over I) O (g.call.noting (fails c r)) now g.x g.done done' x') ∧
      Q r ⟨g.call.noting (fails c r), engine', x', done'⟩

variable {o serves fails O Rel} {call : Call S φ} {flags : S.Flag → Bool}
  {done : Option S.Answer} {p : Program.Prog I α} {next : α → Prog (S.over I)}

theorem lin_after_reading
    (h : Program.wp (attempting serves fails O Rel flags) p (fun a g =>
      Lin o serves fails O Rel g.1 (next a) (.reading flags g.2)) (call, done)) :
    Lin o serves fails O Rel call (.after p next) (.reading flags done) := by
  induction p generalizing call done with
  | ret value => exact h
  | call c k ih =>
    intro r
    obtain ⟨done', heffects, hnext⟩ := h r
    exact ⟨done', heffects, ih r hnext⟩

theorem lin_after_writing {engine : E} {x : O.State}
    (h : Program.wp (holding serves fails O) p (fun a g =>
      Lin o serves fails O Rel g.call (next a) (.writing flags g.engine g.x g.done))
      ⟨call, engine, x, done⟩) :
    Lin o serves fails O Rel call (.after p next) (.writing flags engine x done) := by
  induction p generalizing call engine x done with
  | ret value => exact h
  | call c k ih =>
    intro r engine' hserves
    obtain ⟨done', x', heffect, hnext⟩ := h r engine' hserves
    exact ⟨done', x', heffect, ih r hnext⟩

end Rule

end Served

end Goroutine
