import Regolith.Go.Lent.Serving

-- The entry points keep the contract that the methods are written to.
namespace Regolith.Go.Lent

open Ffi Lending Program

-- What a call returns, after a run of its entry point that ended in `outcome`.
def Form.Returns (outcome : Except Raised Unit) (ws : List Abi.Write) :
    (form : Form) → form.Reply → Prop
  | .reports out, (r : Handed out.Data) =>
      r.status = (guard .writable outcome).status ∧
        (r.cerr.isSome ↔ (guard .writable outcome).err.isSome) ∧ out.Holds ws r.out
  | .silent, (status : Status) => status = (guard .null outcome).status
  | .allocates _, _ => True

section Keeps

variable {ws : List Abi.Write} {status : Status}

theorem value_allowed {r : ValueOut} (h : Out.value.Holds ws r)
    (hwritten : status = OK → Abi.Shape.borrowed.Holds ws) (hunwritten : status ≠ OK → ws = []) :
    Out.value.allows status r := by
  by_cases hstatus : status = OK
  · obtain ⟨slice, hslice, rfl⟩ := hwritten hstatus
    obtain ⟨hlen, hhandle, hval⟩ := h
    refine ⟨?_, hval⟩
    rw [hhandle, hlen]
    cases slice with
    | none => simp
    | some bytes => simpa [hstatus] using hslice
  · obtain rfl := hunwritten hstatus
    obtain rfl : r = ⟨none, 0, none⟩ := h
    exact ⟨by simp [hstatus], by simp⟩

theorem batch_allowed {r : BatchOut} (h : Out.batch.Holds ws r)
    (hwritten : status = OK → Abi.Shape.batch.Holds ws) (hunwritten : status ≠ OK → ws = []) :
    Out.batch.allows status r := by
  by_cases hstatus : status = OK
  · obtain ⟨keys, -, rfl⟩ := hwritten hstatus
    obtain ⟨-, hlen, hout⟩ := h
    change r.out.isSome ↔ _
    rw [hout, hlen]
    simp [hstatus]
  · obtain rfl := hunwritten hstatus
    obtain rfl : r = ⟨none, 0, 0⟩ := h
    change _ ↔ _
    simp [hstatus]

theorem Form.Returns.allowed {outcome : Except Raised Unit} {shape : Abi.Shape}
    (hpromised : Abi.Promised shape outcome ws .writable) :
    {form : Form} → {r : form.Reply} → form.Returns outcome ws r → form.Shaped shape →
      form.allows r
  | .silent, _, _, _ | .allocates _, _, _, _ => trivial
  | .reports out, r, ⟨hstatus, hcerr, hout⟩, hshape => by
    refine ⟨by rw [hcerr, hstatus]; exact hpromised.detail rfl, ?_⟩
    rw [hstatus]
    cases out with
    | value =>
      obtain rfl := hshape
      exact value_allowed hout hpromised.written hpromised.unwritten
    | batch =>
      obtain rfl := hshape
      exact batch_allowed hout hpromised.written hpromised.unwritten
    | nothing | flag | handle | lent => trivial

end Keeps

-- A reply that some run of the entry point makes is one that the contract allows.
theorem contract_allows {c : FfiCall} {found : Found} {entry : Abi.Call}
    (hentry : c.entry found = some entry) {τ : List (Exchange Abi.interface)}
    {outcome : Except Raised Unit} (run : Yields entry.body τ outcome) {r : c.Reply}
    (h : c.form.Returns outcome (Abi.written τ) r) : contract.allows c r :=
  h.allowed (entry.promised run .writable) (FfiCall.shaped hentry)

end Regolith.Go.Lent
