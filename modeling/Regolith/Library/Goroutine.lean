import Regolith.Library.RWMutex
import Regolith.Library.Transition

-- Goroutines that call the methods of one object: its flags, the lock they go
-- through, and calls that leave the program and come back with a reply.
namespace Goroutine

open RwLock (Mode)

structure Signature where
  Flag : Type
  Call : Type
  Reply : Call → Type
  Answer : Type
  Method : Type

-- The code of a method. `access` reads a flag and leaves `new` of it there, in one step.
inductive Prog (S : Signature) where
  | lock (mode : Mode) (next : Prog S)
  | unlock (mode : Mode) (next : Prog S)
  | access (flag : S.Flag) (new : Bool → Bool) (next : Bool → Prog S)
  | call (c : S.Call) (next : S.Reply c → Prog S)
  | ret (answer : S.Answer)

def Prog.load {S : Signature} (flag : S.Flag) (next : Bool → Prog S) : Prog S :=
  .access flag id next

def Prog.store {S : Signature} (flag : S.Flag) (value : Bool) (next : Prog S) : Prog S :=
  .access flag (fun _ => value) (fun _ => next)

-- `next` is told whether the flag was `old`, and so swapped.
def Prog.compareAndSwap {S : Signature} (flag : S.Flag) (old new : Bool) (next : Bool → Prog S) :
    Prog S :=
  .access flag (fun value => if value = old then new else value) (fun value => next (value == old))

-- `outside` flags are raised from elsewhere, at any moment.
structure Object (S : Signature) where
  body : S.Method → Prog S
  flags : S.Flag → Bool
  outside : S.Flag → Bool

inductive Event (ι : Type) (S : Signature) where
  | raise (flag : S.Flag)
  | enter (g : ι) (m : S.Method)
  | lock (g : ι) (mode : Mode)
  | unlock (g : ι) (mode : Mode)
  | access (g : ι) (flag : S.Flag) (old new : Bool)
  | start (g : ι) (c : S.Call)
  | finish (g : ι) (c : S.Call) (r : S.Reply c)
  | leave (g : ι) (m : S.Method) (answer : S.Answer)

-- A method under way: what is left of it, and whether the call it has come to is out.
structure Frame (S : Signature) where
  method : S.Method
  code : Prog S
  calling : Bool

structure State (ι : Type) (S : Signature) where
  flags : S.Flag → Bool
  lk : RWMutex ι
  frames : ι → Option (Frame S)

variable {ι : Type} [DecidableEq ι] {S : Signature}

namespace Event

def actor : Event ι S → Option ι
  | .raise _ => none
  | .enter g _ | .lock g _ | .unlock g _ | .access g _ _ _ | .start g _ | .finish g _ _
  | .leave g _ _ => some g

def isStart : Event ι S → Bool
  | .start _ _ => true
  | _ => false

def isLock : Event ι S → Bool
  | .lock _ _ => true
  | _ => false

end Event

def Starts (τ : List (Event ι S)) : Prop := ∃ e ∈ τ, e.isStart = true

-- What `g` itself did.
def own (g : ι) (τ : List (Event ι S)) : List (Event ι S) :=
  τ.filter (·.actor = some g)

-- The call of `g` that is out after a trace.
def pending (g : ι) (τ : List (Event ι S)) : Option S.Call :=
  τ.foldl (fun out e =>
    match e with
    | .start g' c => if g' = g then some c else out
    | .finish g' _ _ => if g' = g then none else out
    | _ => out) none

-- A call of `g`, from the last time it took the lock, after `pre`, until it returned.
structure Visit (τ : List (Event ι S)) (g : ι) (m : S.Method) (answer : S.Answer)
    (pre mid : List (Event ι S)) : Prop where
  split : ∃ mode post, τ = pre ++ .lock g mode :: mid ++ .leave g m answer :: post
  last : ∀ e ∈ own g mid, e.isLock = false

namespace State

def first (o : Object S) : State ι S := ⟨o.flags, .free, fun _ => none⟩

def put (s : State ι S) (g : ι) (frame : Option (Frame S)) : State ι S :=
  { s with frames := Function.update s.frames g frame }

@[simp] theorem put_flags (s : State ι S) (g : ι) (frame : Option (Frame S)) :
    (s.put g frame).flags = s.flags := rfl

@[simp] theorem put_lk (s : State ι S) (g : ι) (frame : Option (Frame S)) :
    (s.put g frame).lk = s.lk := rfl

@[simp] theorem put_frames_self (s : State ι S) (g : ι) (frame : Option (Frame S)) :
    (s.put g frame).frames g = frame := by
  simp [put]

theorem put_frames_of_ne (s : State ι S) {g g' : ι} (frame : Option (Frame S)) (h : g' ≠ g) :
    (s.put g frame).frames g' = s.frames g' := by
  simp [put, h]

end State

variable [DecidableEq S.Flag]

inductive Step (o : Object S) : State ι S → Event ι S → State ι S → Prop where
  | raise {s flag} (h : o.outside flag = true) :
      Step o s (.raise flag) { s with flags := Function.update s.flags flag true }
  | enter {s g m} (h : s.frames g = none) :
      Step o s (.enter g m) (s.put g (some ⟨m, o.body m, false⟩))
  | lock {s g m mode next lk} (h : s.frames g = some ⟨m, .lock mode next, false⟩)
      (hlk : s.lk.acquire g mode = some lk) :
      Step o s (.lock g mode) { s.put g (some ⟨m, next, false⟩) with lk := lk }
  | unlock {s g m mode next} (h : s.frames g = some ⟨m, .unlock mode next, false⟩)
      (hlk : s.lk.held g = some mode) :
      Step o s (.unlock g mode)
        { s.put g (some ⟨m, next, false⟩) with lk := s.lk.release g mode }
  | access {s g m flag new next} (h : s.frames g = some ⟨m, .access flag new next, false⟩) :
      Step o s (.access g flag (s.flags flag) (new (s.flags flag)))
        { s.put g (some ⟨m, next (s.flags flag), false⟩) with
          flags := Function.update s.flags flag (new (s.flags flag)) }
  | start {s g m c next} (h : s.frames g = some ⟨m, .call c next, false⟩) :
      Step o s (.start g c) (s.put g (some ⟨m, .call c next, true⟩))
  | finish {s g m c next} (r : S.Reply c) (h : s.frames g = some ⟨m, .call c next, true⟩) :
      Step o s (.finish g c r) (s.put g (some ⟨m, next r, false⟩))
  | leave {s g m answer} (h : s.frames g = some ⟨m, .ret answer, false⟩) :
      Step o s (.leave g m answer) (s.put g none)

theorem Step.access_old {o : Object S} {s s' : State ι S} {g : ι} {flag : S.Flag} {old new : Bool}
    (h : Step o s (.access g flag old new) s') : s.flags flag = old := by
  cases h
  rfl

abbrev Runs (o : Object S) : List (Event ι S) → State ι S → Prop :=
  Run (Step o) (.first o)

-- The call of a frame that is out.
def Frame.out (f : Frame S) : Option S.Call :=
  match f with
  | ⟨_, .call c _, true⟩ => some c
  | _ => none

section Pending

variable {o : Object S} {g : ι} {c : S.Call} {τ post : List (Event ι S)} {s : State ι S}

omit [DecidableEq S.Flag]

theorem pending_snoc (e : Event ι S) :
    pending g (τ ++ [e]) =
      match e with
      | .start g' c => if g' = g then some c else pending g τ
      | .finish g' _ _ => if g' = g then none else pending g τ
      | _ => pending g τ := by
  simp [pending]

theorem exists_start_of_pending (h : pending g τ = some c) : .start g c ∈ τ := by
  induction τ using List.reverseRecOn with
  | nil => simp [pending] at h
  | append_singleton τ e ih =>
    rw [pending_snoc] at h
    cases e with
    | start g' c' =>
      by_cases hg : g' = g
      · simp_all
      · exact List.mem_append_left _ (ih (by simpa [hg] using h))
    | finish g' c' r =>
      by_cases hg : g' = g
      · simp [hg] at h
      · exact List.mem_append_left _ (ih (by simpa [hg] using h))
    | _ => exact List.mem_append_left _ (ih h)

-- Where no call is made, none comes to be out.
theorem pending_append_eq_none (h : pending g τ = none)
    (hpost : ∀ e ∈ post, e.isStart = false) : pending g (τ ++ post) = none := by
  induction post using List.reverseRecOn with
  | nil => simpa using h
  | append_singleton post e ih =>
    have hbefore := ih fun e he => hpost e (List.mem_append_left _ he)
    rw [← List.append_assoc, pending_snoc]
    cases e with
    | start => simpa [Event.isStart] using hpost _ (List.mem_append_right _ (.head _))
    | finish g' c' r =>
      by_cases hg : g' = g <;> simp [hg, hbefore]
    | _ => exact hbefore

@[simp] theorem Frame.out_idle (m : S.Method) (code : Prog S) :
    (⟨m, code, false⟩ : Frame S).out = none := by
  cases code <;> rfl

theorem State.put_out (s : State ι S) (g g' : ι) (frame : Option (Frame S)) :
    ((s.put g' frame).frames g).bind Frame.out =
      if g' = g then frame.bind Frame.out else (s.frames g).bind Frame.out := by
  by_cases hg : g = g'
  · simp [hg]
  · rw [State.put_frames_of_ne s frame hg, if_neg (Ne.symm hg)]

end Pending

theorem Runs.pending_eq {o : Object S} {τ : List (Event ι S)} {s : State ι S} (run : Runs o τ s)
    (g : ι) : pending g τ = (s.frames g).bind Frame.out := by
  refine run.invariant (I := fun τ s => ∀ g, pending g τ = (s.frames g).bind Frame.out)
    (fun g => rfl) ?_ g
  intro τ s e s' _ ih hs g
  rw [pending_snoc]
  cases hs with
  | raise => exact ih g
  | @start g' m c next hf =>
    rw [State.put_out, ← ih]
    rfl
  | @finish g' m c next r hf =>
    rw [State.put_out, ← ih]
    simp
  | @enter g' m hf | @lock g' m mode next lk hf | @unlock g' m mode next hf
  | @access g' m flag new next hf | @leave g' m answer hf =>
    -- neither before nor after is a call of `g'` out
    refine (?_ : _ = _).trans (State.put_out s g g' _).symm
    have hout := ih g'
    simp only [hf, Option.bind_some, Option.bind_none, Frame.out_idle] at hout ⊢
    by_cases hg : g' = g
    · subst hg
      simp [hout]
    · simp [hg, ih g]

theorem Runs.start_of_finish {o : Object S} {pre post : List (Event ι S)} {g : ι} {c : S.Call}
    {r : S.Reply c} {s : State ι S} (run : Runs o (pre ++ .finish g c r :: post) s) :
    .start g c ∈ pre := by
  obtain ⟨s₁, s₂, run, hs⟩ := run.at_event
  apply exists_start_of_pending
  rw [Runs.pending_eq run]
  cases hs with
  | finish r hf => simp [hf, Frame.out]

end Goroutine
