import Mathlib.Data.Finset.Basic
import Mathlib.Data.Finset.Lattice.Lemmas
import Regolith.Library.Program
import Regolith.Library.Transition

-- Programs that their calls lend objects to, which they read and release: a rule for what
-- one of them holds on its way, and from it what holds while any number of them run.
namespace Lending

open Program

structure Signature where
  Obj : Type
  Data : Obj → Type
  Call : Type
  Reply : Call → Type

inductive Instr (S : Signature) where
  | call (c : S.Call)
  | read (o : S.Obj)
  | release (o : S.Obj)

abbrev Instr.Reply {S : Signature} : Instr S → Type
  | .call c => S.Reply c
  | .read o => S.Data o
  | .release _ => Unit

abbrev Signature.interface (S : Signature) : Interface := ⟨Instr S, Instr.Reply⟩

-- Between a program and what it calls: the objects a call needs all along, the replies it
-- may make, and the objects a reply hands over.
structure Contract (S : Signature) where
  uses : S.Call → Finset S.Obj
  allows : (c : S.Call) → S.Reply c → Prop
  gives : (c : S.Call) → S.Reply c → Finset S.Obj

section Contract

variable {S : Signature} [DecidableEq S.Obj] {α : Type}

-- The ghost state is what the program holds.
def Contract.owning (K : Contract S) : Spec S.interface (Finset S.Obj)
  | .call c, Q, held =>
      K.uses c ⊆ held ∧
        ∀ r, K.allows c r → Disjoint (K.gives c r) held → Q r (held ∪ K.gives c r)
  | .read o, Q, held => o ∈ held ∧ ∀ d, Q d held
  | .release o, Q, held => o ∈ held ∧ Q () (held.erase o)

def Tidy (K : Contract S) (p : Prog S.interface α) : Prop :=
  wp K.owning p (fun _ held => held = ∅) ∅

end Contract

-- Any number of programs under way, one for each `g`, a step of any of them at a time.
inductive Event (ι : Type) (S : Signature) (μ α : Type) where
  | enter (g : ι) (m : μ)
  | call (g : ι) (c : S.Call) (r : S.Reply c)
  | read (g : ι) (o : S.Obj)
  | release (g : ι) (o : S.Obj)
  | leave (g : ι) (answer : α)

-- `given` is every object ever handed over: an object is an allocation, and two are never
-- the same.
structure State (ι : Type) (S : Signature) (α : Type) where
  frames : ι → Option (Prog S.interface α)
  given : Finset S.Obj

section System

variable {ι : Type} [DecidableEq ι] {S : Signature} [DecidableEq S.Obj] {μ α : Type}

def State.first : State ι S α := ⟨fun _ => none, ∅⟩

def State.put (s : State ι S α) (g : ι) (frame : Option (Prog S.interface α)) : State ι S α :=
  { s with frames := Function.update s.frames g frame }

variable (K : Contract S) (body : μ → Prog S.interface α)

-- Nothing here keeps a program from reading or releasing what is not there.
inductive Step : State ι S α → Event ι S μ α → State ι S α → Prop where
  | enter {s g m} (h : s.frames g = none) : Step s (.enter g m) (s.put g (some (body m)))
  | call {s g c next} (r : S.Reply c) (h : s.frames g = some (.call (.call c) next))
      (hallows : K.allows c r) (hfresh : Disjoint (K.gives c r) s.given) :
      Step s (.call g c r)
        { s.put g (some (next r)) with given := s.given ∪ K.gives c r }
  | read {s g o next} (d : S.Data o) (h : s.frames g = some (.call (.read o) next)) :
      Step s (.read g o) (s.put g (some (next d)))
  | release {s g o next} (h : s.frames g = some (.call (.release o) next)) :
      Step s (.release g o) (s.put g (some (next ())))
  | leave {s g answer} (h : s.frames g = some (.ret answer)) :
      Step s (.leave g answer) (s.put g none)

abbrev Runs : List (Event ι S μ α) → State ι S α → Prop := Run (Step K body) .first

variable {body}

def Received (g : ι) (o : S.Obj) (τ : List (Event ι S μ α)) : Prop :=
  ∃ c r, .call g c r ∈ τ ∧ o ∈ K.gives c r

def Event.releases (o : S.Obj) : Event ι S μ α → Bool
  | .release _ o' => o' = o
  | _ => false

-- How often `o` has been released.
def releases (o : S.Obj) (τ : List (Event ι S μ α)) : Nat := τ.countP (Event.releases o)

def Event.settle (out : Finset S.Obj) : Event ι S μ α → Finset S.Obj
  | .call _ c r => out ∪ K.gives c r
  | .release _ o => out.erase o
  | _ => out

-- What has been handed over and not released.
def outstanding (τ : List (Event ι S μ α)) : Finset S.Obj := τ.foldl (Event.settle K) ∅

def Event.actor : Event ι S μ α → ι
  | .enter g _ | .call g _ _ | .read g _ | .release g _ | .leave g _ => g

-- The same, of what `g` was handed.
def held (g : ι) (τ : List (Event ι S μ α)) : Finset S.Obj :=
  outstanding K (τ.filter (·.actor = g))

-- Handed to `g`, and not released.
def Live (g : ι) (o : S.Obj) (τ : List (Event ι S μ α)) : Prop :=
  Received K g o τ ∧ releases o τ = 0

-- What the programs together do to the objects lent to them.
structure Settled (τ : List (Event ι S μ α)) (s : State ι S α) : Prop where
  reads : ∀ {pre g o post}, τ = pre ++ .read g o :: post → Live K g o pre
  uses : ∀ {pre g c r post}, τ = pre ++ .call g c r :: post → ∀ o ∈ K.uses c, Live K g o pre
  releases : ∀ {pre g o post}, τ = pre ++ .release g o :: post → Live K g o pre
  returned : ∀ {pre g answer post}, τ = pre ++ .leave g answer :: post →
    ∀ o, Received K g o pre → Lending.releases o pre = 1
  once : ∀ o, Lending.releases o τ ≤ 1
  idle : (∀ g, s.frames g = none) → outstanding K τ = ∅

-- What a step keeps. The last two are the rule for one program, at the point it is at.
structure Sound (τ : List (Event ι S μ α)) (s : State ι S α) : Prop where
  given : ∀ {o}, o ∈ s.given ↔ ∃ g, Received K g o τ
  receiver : ∀ {g g' o}, Received K g o τ → Received K g' o τ → g = g'
  received : ∀ {g o}, o ∈ held K g τ → Received K g o τ
  out : ∀ {o}, o ∈ outstanding K τ ↔ ∃ g, o ∈ held K g τ
  count : ∀ {g o}, Received K g o τ → releases o τ = if o ∈ outstanding K τ then 0 else 1
  fresh : ∀ {o}, o ∉ s.given → releases o τ = 0
  idle : ∀ {g}, s.frames g = none → held K g τ = ∅
  busy : ∀ {g p}, s.frames g = some p →
    wp K.owning p (fun _ held => held = ∅) (held K g τ)

variable {K} {g g' : ι} {o : S.Obj} {e : Event ι S μ α} {τ : List (Event ι S μ α)}
  {s s' : State ι S α} {frame : Option (Prog S.interface α)}

section Snoc

omit [DecidableEq ι] in
theorem outstanding_snoc (τ : List (Event ι S μ α)) (e : Event ι S μ α) :
    outstanding K (τ ++ [e]) = e.settle K (outstanding K τ) := by
  simp [outstanding]

theorem held_snoc (g : ι) (τ : List (Event ι S μ α)) (e : Event ι S μ α) :
    held K g (τ ++ [e]) = if e.actor = g then e.settle K (held K g τ) else held K g τ := by
  by_cases h : e.actor = g <;> simp [held, outstanding, h]

theorem held_snoc_of_ne (h : e.actor ≠ g) : held K g (τ ++ [e]) = held K g τ := by
  rw [held_snoc, if_neg h]

omit [DecidableEq ι] in
theorem releases_snoc (o : S.Obj) (τ : List (Event ι S μ α)) (e : Event ι S μ α) :
    releases o (τ ++ [e]) = releases o τ + if e.releases o then 1 else 0 := by
  simp [releases, List.countP_singleton]

omit [DecidableEq ι] [DecidableEq S.Obj] in
theorem received_snoc :
    Received K g o (τ ++ [e]) ↔
      Received K g o τ ∨ ∃ c r, e = .call g c r ∧ o ∈ K.gives c r := by
  simp only [Received, List.mem_append, List.mem_singleton]
  constructor
  · rintro ⟨c, r, hτ | he, ho⟩
    · exact .inl ⟨c, r, hτ, ho⟩
    · exact .inr ⟨c, r, he.symm, ho⟩
  · rintro (⟨c, r, hτ, ho⟩ | ⟨c, r, he, ho⟩)
    · exact ⟨c, r, .inl hτ, ho⟩
    · exact ⟨c, r, .inr he.symm, ho⟩

omit [DecidableEq ι] [DecidableEq S.Obj] in
theorem received_call {c : S.Call} {r : S.Reply c} :
    Received K g' o (τ ++ [.call g c r]) ↔ Received K g' o τ ∨ g' = g ∧ o ∈ K.gives c r := by
  rw [received_snoc]
  refine or_congr_right ⟨?_, ?_⟩
  · rintro ⟨c', r', he, ho⟩
    cases he
    exact ⟨rfl, ho⟩
  · rintro ⟨rfl, ho⟩
    exact ⟨c, r, rfl, ho⟩

omit [DecidableEq S.Obj] in
@[simp] theorem State.put_frames_self (s : State ι S α) (g : ι) (frame : Option (Prog S.interface α)) :
    (s.put g frame).frames g = frame := by
  simp [State.put]

omit [DecidableEq S.Obj] in
theorem State.put_frames_of_ne (s : State ι S α) (frame : Option (Prog S.interface α)) (h : g' ≠ g) :
    (s.put g frame).frames g' = s.frames g' := by
  simp [State.put, h]

omit [DecidableEq S.Obj] in
@[simp] theorem State.put_given (s : State ι S α) (g : ι) (frame : Option (Prog S.interface α)) :
    (s.put g frame).given = s.given := rfl

end Snoc

namespace Sound

theorem mem_given (h : Sound K τ s) (ho : Received K g o τ) : o ∈ s.given := h.given.mpr ⟨g, ho⟩

-- A step of `g` leaves what the others hold, and where they are.
theorem idle_put (h : Sound K τ s) (he : e.actor = g)
    (hframe : frame = none → held K g (τ ++ [e]) = ∅)
    (hg' : (s.put g frame).frames g' = none) : held K g' (τ ++ [e]) = ∅ := by
  by_cases hg : g' = g
  · subst hg
    exact hframe (by simpa using hg')
  · rw [State.put_frames_of_ne s frame hg] at hg'
    rw [held_snoc_of_ne (by rw [he]; exact Ne.symm hg)]
    exact h.idle hg'

theorem busy_put {p : Prog S.interface α} (h : Sound K τ s) (he : e.actor = g)
    (hframe : ∀ p, frame = some p →
      wp K.owning p (fun _ held => held = ∅) (held K g (τ ++ [e])))
    (hg' : (s.put g frame).frames g' = some p) :
    wp K.owning p (fun _ held => held = ∅) (held K g' (τ ++ [e])) := by
  by_cases hg : g' = g
  · subst hg
    exact hframe p (by simpa using hg')
  · rw [State.put_frames_of_ne s frame hg] at hg'
    rw [held_snoc_of_ne (by rw [he]; exact Ne.symm hg)]
    exact h.busy hg'

-- A step that hands nothing over and releases nothing.
theorem quiet (h : Sound K τ s) (he : e.actor = g) (hsettle : ∀ out, e.settle K out = out)
    (hcall : ∀ g c r, e ≠ .call g c r) (hrelease : ∀ o, e.releases o = false)
    (hidle : frame = none → held K g τ = ∅)
    (hbusy : ∀ p, frame = some p → wp K.owning p (fun _ held => held = ∅) (held K g τ)) :
    Sound K (τ ++ [e]) (s.put g frame) := by
  have hreceived {g o} : Received K g o (τ ++ [e]) ↔ Received K g o τ := by
    simp [received_snoc, hcall]
  have hheld (g) : held K g (τ ++ [e]) = held K g τ := by
    rw [held_snoc, hsettle, ite_self]
  have hout : outstanding K (τ ++ [e]) = outstanding K τ := by rw [outstanding_snoc, hsettle]
  have hcount (o) : releases o (τ ++ [e]) = releases o τ := by simp [releases_snoc, hrelease]
  exact {
    given := fun {o} => by simpa [hreceived] using h.given (o := o)
    receiver := fun ho ho' => h.receiver (hreceived.mp ho) (hreceived.mp ho')
    received := fun ho => hreceived.mpr (h.received (hheld _ ▸ ho))
    out := fun {o} => by simpa [hout, hheld] using h.out (o := o)
    count := fun ho => by rw [hcount, hout, h.count (hreceived.mp ho)]
    fresh := fun ho => by rw [hcount]; exact h.fresh ho
    idle := fun hg => h.idle_put he (by simpa [hheld] using hidle) hg
    busy := fun hg => h.busy_put he (by simpa [hheld] using hbusy) hg }

theorem call {c : S.Call} {next : S.Reply c → Prog S.interface α} {r : S.Reply c} (h : Sound K τ s)
    (hg : s.frames g = some (.call (.call c) next)) (hallows : K.allows c r)
    (hfresh : Disjoint (K.gives c r) s.given) :
    Sound K (τ ++ [.call g c r])
      { s.put g (some (next r)) with given := s.given ∪ K.gives c r } := by
  have hnew {o} (ho : o ∈ K.gives c r) : o ∉ s.given := Finset.disjoint_left.mp hfresh ho
  have hheld {g' o} :
      o ∈ held K g' (τ ++ [.call g c r]) ↔ o ∈ held K g' τ ∨ g' = g ∧ o ∈ K.gives c r := by
    rw [held_snoc]
    by_cases hg' : g' = g
    · simp [Event.actor, Event.settle, hg']
    · simp [Event.actor, hg', Ne.symm hg']
  have hout : outstanding K (τ ++ [.call g c r]) = outstanding K τ ∪ K.gives c r :=
    outstanding_snoc τ _
  have hcount (o) : releases o (τ ++ [.call g c r]) = releases o τ := by
    simp [releases_snoc, Event.releases]
  have hbusy : ∀ p, some (next r) = some p →
      wp K.owning p (fun _ held => held = ∅) (held K g (τ ++ [.call g c r])) := by
    rintro p ⟨rfl⟩
    rw [held_snoc, if_pos (by rfl)]
    refine (h.busy hg).2 r hallows (Finset.disjoint_left.mpr fun o ho hheld => ?_)
    exact hnew ho (h.mem_given (h.received hheld))
  refine
    { given := ?_, receiver := ?_, received := ?_, out := ?_, count := ?_, fresh := ?_
      idle := fun hg' => h.idle_put rfl (by simp) hg'
      busy := fun hg' => h.busy_put rfl hbusy hg' }
  · intro o
    simp [received_call, h.given, exists_or]
  · rintro g₁ g₂ o h₁ h₂
    rcases received_call.mp h₁ with h₁ | ⟨hg₁, h₁⟩ <;>
      rcases received_call.mp h₂ with h₂ | ⟨hg₂, h₂⟩
    · exact h.receiver h₁ h₂
    · exact absurd (h.mem_given h₁) (hnew h₂)
    · exact absurd (h.mem_given h₂) (hnew h₁)
    · rw [hg₁, hg₂]
  · intro g' o ho
    exact received_call.mpr ((hheld.mp ho).imp_left h.received)
  · intro o
    simp [hout, hheld, h.out, exists_or]
  · intro g' o ho
    rw [hcount, hout]
    rcases received_call.mp ho with ho | ⟨-, ho⟩
    · have hold : o ∉ K.gives c r := fun hc => hnew hc (h.mem_given ho)
      simp [h.count ho, hold]
    · simp [h.fresh (hnew ho), ho]
  · intro o ho
    rw [hcount]
    exact h.fresh fun hs => ho (Finset.mem_union_left _ hs)

theorem release {next : Unit → Prog S.interface α} (h : Sound K τ s)
    (hg : s.frames g = some (.call (.release o) next)) :
    Sound K (τ ++ [.release g o]) (s.put g (some (next ()))) := by
  obtain ⟨hmine, hnext⟩ : o ∈ held K g τ ∧ _ := h.busy hg
  have hreceived {g' o'} : Received K g' o' (τ ++ [.release g o]) ↔ Received K g' o' τ := by
    simp [received_snoc]
  have hheld {g' o'} : o' ∈ held K g' (τ ++ [.release g o]) ↔ o' ∈ held K g' τ ∧ o' ≠ o := by
    rw [held_snoc]
    by_cases hg' : g' = g
    · simp [Event.actor, Event.settle, hg', and_comm]
    · have hne (ho' : o' ∈ held K g' τ) : o' ≠ o := by
        rintro rfl
        exact hg' (h.receiver (h.received ho') (h.received hmine))
      simpa [Event.actor, Ne.symm hg'] using hne
  have hout : outstanding K (τ ++ [.release g o]) = (outstanding K τ).erase o :=
    outstanding_snoc τ _
  refine
    { given := fun {o'} => by simpa [hreceived] using h.given (o := o')
      receiver := fun h₁ h₂ => h.receiver (hreceived.mp h₁) (hreceived.mp h₂)
      received := fun ho' => hreceived.mpr (h.received (hheld.mp ho').1)
      out := ?_, count := ?_, fresh := ?_
      idle := fun hg' => h.idle_put rfl (by simp) hg'
      busy := fun hg' => h.busy_put rfl ?_ hg' }
  · intro o'
    simp [hout, hheld, h.out, and_comm]
  · intro g' o' ho'
    rw [releases_snoc, hout, h.count (hreceived.mp ho')]
    by_cases heq : o' = o
    · subst heq
      simp [Event.releases, h.out.mpr ⟨g, hmine⟩]
    · simp [Event.releases, heq, Ne.symm heq]
  · intro o' ho'
    have hne : o ≠ o' := by
      rintro rfl
      exact ho' (h.mem_given (h.received hmine))
    simpa [releases_snoc, Event.releases, hne] using h.fresh ho'
  · rintro p ⟨rfl⟩
    rw [held_snoc, if_pos (by rfl)]
    exact hnext

end Sound

variable {body : μ → Prog S.interface α}

theorem sound_first : Sound K ([] : List (Event ι S μ α)) .first where
  given := by simp [State.first, Received]
  receiver := by simp [Received]
  received := by simp [held, outstanding]
  out := by simp [held, outstanding]
  count := by simp [Received]
  fresh := by simp [releases]
  idle := by simp [held, outstanding]
  busy := by simp [State.first]

theorem Step.sound (htidy : ∀ m, Tidy K (body m)) (h : Sound K τ s) (hs : Step K body s e s') :
    Sound K (τ ++ [e]) s' := by
  cases hs with
  | @enter g m hg =>
    refine h.quiet rfl (fun _ => rfl) nofun (fun _ => rfl) nofun ?_
    rintro p ⟨rfl⟩
    rw [h.idle hg]
    exact htidy m
  | call r hg hallows hfresh => exact h.call hg hallows hfresh
  | @read g o next d hg =>
    refine h.quiet rfl (fun _ => rfl) nofun (fun _ => rfl) nofun ?_
    rintro p ⟨rfl⟩
    exact (h.busy hg).2 d
  | release hg => exact h.release hg
  | leave hg => exact h.quiet rfl (fun _ => rfl) nofun (fun _ => rfl) (fun _ => h.busy hg) nofun

theorem Runs.sound (htidy : ∀ m, Tidy K (body m)) (run : Runs K body τ s) : Sound K τ s :=
  run.invariant sound_first fun _ h hs => hs.sound htidy h

theorem Sound.live (h : Sound K τ s) (ho : o ∈ held K g τ) : Live K g o τ := by
  refine ⟨h.received ho, ?_⟩
  rw [h.count (h.received ho), if_pos (h.out.mpr ⟨g, ho⟩)]

-- Programs that are tidy each on its own are tidy together.
theorem Runs.settled (htidy : ∀ m, Tidy K (body m)) (run : Runs K body τ s) : Settled K τ s where
  reads := by
    rintro pre g o post rfl
    obtain ⟨s₁, s₂, run₁, hs⟩ := run.at_event
    have h := Runs.sound htidy run₁
    cases hs with
    | read d hg => exact h.live (h.busy hg).1
  uses := by
    rintro pre g c r post rfl o ho
    obtain ⟨s₁, s₂, run₁, hs⟩ := run.at_event
    have h := Runs.sound htidy run₁
    cases hs with
    | call r hg hallows hfresh => exact h.live ((h.busy hg).1 ho)
  releases := by
    rintro pre g o post rfl
    obtain ⟨s₁, s₂, run₁, hs⟩ := run.at_event
    have h := Runs.sound htidy run₁
    cases hs with
    | release hg => exact h.live (h.busy hg).1
  returned := by
    rintro pre g answer post rfl o ho
    obtain ⟨s₁, s₂, run₁, hs⟩ := run.at_event
    have h := Runs.sound htidy run₁
    have hempty : held K g pre = ∅ := by
      cases hs with
      | leave hg => exact h.busy hg
    rw [h.count ho, if_neg]
    rw [h.out]
    rintro ⟨g', ho'⟩
    rw [← h.receiver ho (h.received ho'), hempty] at ho'
    exact Finset.notMem_empty o ho'
  once := by
    intro o
    have h := Runs.sound htidy run
    by_cases ho : o ∈ s.given
    · obtain ⟨g, ho⟩ := h.given.mp ho
      rw [h.count ho]
      split_ifs <;> omega
    · simp [h.fresh ho]
  idle := by
    intro hidle
    have h := Runs.sound htidy run
    refine Finset.eq_empty_of_forall_notMem fun o ho => ?_
    obtain ⟨g, ho⟩ := h.out.mp ho
    rw [h.idle (hidle g)] at ho
    exact Finset.notMem_empty o ho

end System

end Lending
