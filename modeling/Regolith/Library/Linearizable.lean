import Mathlib.Logic.Function.Basic
import Regolith.Library.Transition

-- Linearizability: what callers see of a shared object, their calls and what these return, is
-- what they might see of one that does all that a call does in a single step, at some time
-- between the call and the return.
namespace Linear

-- A call under way. Flags are raised from elsewhere: `before` tells which were when the call
-- began. `faults` are the failures that came up in it, by then.
structure Call (μ φ β : Type) where
  method : μ
  before : β → Bool
  faults : List φ

def Call.noting {μ φ β : Type} (call : Call μ φ β) : Option φ → Call μ φ β
  | none => call
  | some f => { call with faults := call.faults ++ [f] }

-- What a call may do, by the flags that are raised `now`.
structure Object (μ α φ β : Type) where
  State : Type
  first : State
  does : State → Call μ φ β → (now : β → Bool) → α → State → Prop

-- What is seen of a run.
inductive Seen (ι μ α φ β : Type) where
  | enter (g : ι) (m : μ)
  | fault (g : ι) (f : φ)
  | raise (flag : β)
  | leave (g : ι) (m : μ) (answer : α)

inductive Moment (ι μ α φ β : Type) where
  | seen (e : Seen ι μ α φ β)
  | effect (g : ι) (answer : α)

-- Where a caller stands: `done` is the answer of a call that had its effect.
inductive Caller (μ α φ β : Type) where
  | idle
  | calls (call : Call μ φ β) (done : Option α)

variable {ι μ α φ β : Type}

def Moment.shown : Moment ι μ α φ β → Option (Seen ι μ α φ β)
  | .seen e => some e
  | .effect _ _ => none

structure State (ι : Type) (O : Object μ α φ β) where
  callers : ι → Caller μ α φ β
  raised : β → Bool
  object : O.State

def State.start (O : Object μ α φ β) : State ι O := ⟨fun _ => .idle, fun _ => false, O.first⟩

def history (τ : List (Moment ι μ α φ β)) : List (Seen ι μ α φ β) := τ.filterMap Moment.shown

@[simp] theorem history_nil : history ([] : List (Moment ι μ α φ β)) = [] := rfl

theorem history_append (τ τ' : List (Moment ι μ α φ β)) :
    history (τ ++ τ') = history τ ++ history τ' := List.filterMap_append

variable [DecidableEq ι] [DecidableEq β]

section State

variable {O : Object μ α φ β}

def State.put (s : State ι O) (g : ι) (c : Caller μ α φ β) : State ι O :=
  { s with callers := Function.update s.callers g c }

def State.raise (s : State ι O) (flag : β) : State ι O :=
  { s with raised := Function.update s.raised flag true }

-- After the effect of a call of `g`.
def State.had (s : State ι O) (g : ι) (call : Call μ φ β) (answer : α) (x : O.State) : State ι O :=
  { s.put g (.calls call (some answer)) with object := x }

end State

-- The steps of an object whose calls take effect at once.
inductive Step (O : Object μ α φ β) : State ι O → Moment ι μ α φ β → State ι O → Prop where
  | enter {s g m} (h : s.callers g = .idle) :
      Step O s (.seen (.enter g m)) (s.put g (.calls ⟨m, s.raised, []⟩ none))
  | fault {s g call done} (f : φ) (h : s.callers g = .calls call done) :
      Step O s (.seen (.fault g f)) (s.put g (.calls (call.noting (some f)) done))
  | raise {s} (flag : β) : Step O s (.seen (.raise flag)) (s.raise flag)
  | effect {s g call answer x} (h : s.callers g = .calls call none)
      (hdoes : O.does s.object call s.raised answer x) :
      Step O s (.effect g answer) (s.had g call answer x)
  | leave {s g call answer} (h : s.callers g = .calls call (some answer)) :
      Step O s (.seen (.leave g call.method answer)) (s.put g .idle)

def Linearizable (O : Object μ α φ β) (H : List (Seen ι μ α φ β)) : Prop :=
  ∃ τ s, Run (Step O) (.start O) τ s ∧ history τ = H

-- An object whose every step another can make shows nothing that the other might not.
theorem Linearizable.mono {O O' : Object μ α φ β} {R : O.State → O'.State → Prop}
    {H : List (Seen ι μ α φ β)} (h : Linearizable O H) (hfirst : R O.first O'.first)
    (hdoes : ∀ {x x' call now answer y}, R x y → O.does x call now answer x' →
      ∃ y', O'.does y call now answer y' ∧ R x' y') : Linearizable O' H := by
  obtain ⟨τ, s, run, rfl⟩ := h
  let Rel : State ι O → State ι O' → Prop := fun s t =>
    t.callers = s.callers ∧ t.raised = s.raised ∧ R s.object t.object
  have hsim : ∃ t, Run (Step O') (State.start O') τ t ∧ Rel s t :=
    run.simulates ⟨rfl, rfl, hfirst⟩ ?_
  · obtain ⟨t, run', -⟩ := hsim
    exact ⟨τ, t, run', rfl⟩
  · rintro ⟨callers, raised, x⟩ s₁ e ⟨_, _, y⟩ ⟨rfl, rfl, hR⟩ hs
    cases hs with
    | enter h => exact ⟨_, .enter h, rfl, rfl, hR⟩
    | fault f h => exact ⟨_, .fault f h, rfl, rfl, hR⟩
    | raise flag => exact ⟨_, .raise flag, rfl, rfl, hR⟩
    | effect h hdoes' =>
      obtain ⟨y', hy', hR'⟩ := hdoes hR hdoes'
      exact ⟨_, .effect h hy', rfl, rfl, hR'⟩
    | leave h => exact ⟨_, .leave h, rfl, rfl, hR⟩

-- What is raised stays raised.
theorem Step.raised {O : Object μ α φ β} {s s' : State ι O} {e : Moment ι μ α φ β}
    (hs : Step O s e s') {flag : β} (h : s.raised flag = true) : s'.raised flag = true := by
  cases hs with
  | raise other =>
    by_cases hflag : flag = other <;> simp [State.raise, hflag, h]
  | _ => exact h

-- A call began with no flag that has not been raised since.
theorem before_le_raised {O : Object μ α φ β} {τ : List (Moment ι μ α φ β)} {s : State ι O}
    (run : Run (Step O) (.start O) τ s) {g : ι} {call : Call μ φ β} {done : Option α}
    (hcalls : s.callers g = .calls call done) {flag : β} (hbefore : call.before flag = true) :
    s.raised flag = true := by
  refine run.invariant (I := fun _ s => ∀ g call done, s.callers g = .calls call done →
    call.before flag = true → s.raised flag = true) (fun _ _ _ h => by cases h) ?_ g call done
    hcalls hbefore
  intro τ s e s' _ ih hs g call done hcalls hbefore
  -- whoever it is that steps, the other callers stand as they stood
  have hother : s'.callers g = s.callers g → s'.raised flag = true := fun hsame =>
    hs.raised (ih g call done (hsame ▸ hcalls) hbefore)
  cases hs with
  | raise => exact hother rfl
  | @enter g' m h =>
    by_cases hg : g = g'
    · subst hg
      obtain ⟨rfl, -⟩ : _ ∧ none = done := by simpa [State.put] using hcalls
      exact hbefore
    · exact hother (by simp [State.put, hg])
  | @fault g' call' done' f h =>
    by_cases hg : g = g'
    · subst hg
      obtain ⟨rfl, -⟩ : _ ∧ done' = done := by simpa [State.put] using hcalls
      exact ih g call' done' h hbefore
    · exact hother (by simp [State.put, hg])
  | @effect g' call' answer x h =>
    by_cases hg : g = g'
    · subst hg
      obtain ⟨rfl, -⟩ : _ ∧ some answer = done := by simpa [State.had, State.put] using hcalls
      exact ih g call' none h hbefore
    · exact hother (by simp [State.had, State.put, hg])
  | @leave g' call' answer h =>
    by_cases hg : g = g'
    · subst hg
      simp [State.put] at hcalls
    · exact hother (by simp [State.put, hg])

-- Calls that are late: a flag was raised while they were under way, and they then do what they
-- might have done before. Each can be taken to have had its effect just before the flag was
-- raised, after those that are late and were earlier than it.
section Late

variable {X : Type} {first : X} {does does' : X → Call μ φ β → (β → Bool) → α → X → Prop}
  {flag : β} {Live : X → Prop}

-- `Live` objects are those that calls may yet be late on. All else that is done to these, once
-- the flag is raised, leaves them.
structure Late (does does' : X → Call μ φ β → (β → Bool) → α → X → Prop) (flag : β)
    (Live : X → Prop) : Prop where
  late : ∀ {x call now answer x'}, does x call now answer x' → does' x call now answer x' ∨
    now flag = true ∧ call.before flag = false ∧ Live x ∧ Live x' ∧
      ∀ now', now' flag = false → does' x call now' answer x'
  after : ∀ {x call now answer x'}, does' x call now answer x' → now flag = true → Live x' →
    x' = x ∧ ∀ y, Live y → does' y call now answer y

-- The first time that a flag was raised.
theorem exists_raise {O : Object μ α φ β} {τ : List (Moment ι μ α φ β)} {s : State ι O}
    (run : Run (Step O) (.start O) τ s) (h : s.raised flag = true) :
    ∃ τ₁ τ₂ s₁, τ = τ₁ ++ .seen (.raise flag) :: τ₂ ∧ Run (Step O) (.start O) τ₁ s₁ ∧
      s₁.raised flag = false ∧ Run (Step O) (s₁.raise flag) τ₂ s := by
  induction run with
  | nil => cases h
  | @snoc τ s s' e run hs ih =>
    cases hflag : s.raised flag with
    | true =>
      obtain ⟨τ₁, τ₂, s₁, rfl, run₁, hlowered, run₂⟩ := ih hflag
      exact ⟨τ₁, τ₂ ++ [e], s₁, by simp, run₁, hlowered, run₂.snoc hs⟩
    | false =>
      cases hs with
      | raise other =>
        obtain rfl : flag = other := by
          by_contra hne
          simp [State.raise, hne, hflag] at h
        exact ⟨τ, [], s, rfl, run, hflag, .nil⟩
      | _ => exact absurd (hflag.symm.trans h) (by simp)

variable [IsEmpty φ]

-- A call that has not had its effect, and began before the flag was raised, might have had it
-- then, where no other call changes the object since.
theorem exists_had (hlate : Late does does' flag Live)
    {τ : List (Moment ι μ α φ β)} {s₁ s : State ι (⟨X, first, does'⟩ : Object μ α φ β)}
    (run : Run (Step ⟨X, first, does'⟩) s₁ τ s) (hraised : s₁.raised flag = true)
    (hlive : Live s.object) {g : ι} {call : Call μ φ β} (hcalls : s.callers g = .calls call none)
    (hbefore : call.before flag = false) {y : X} (hy : Live y) (answer : α) :
    s₁.object = s.object ∧ s₁.callers g = .calls call none ∧ s.raised flag = true ∧
      Run (Step ⟨X, first, does'⟩) (s₁.had g call answer y) τ (s.had g call answer y) := by
  induction run with
  | nil => exact ⟨rfl, hcalls, hraised, .nil⟩
  | @snoc τ s s' e run hs ih =>
    have hraised' : s.raised flag = true :=
      run.invariant (I := fun _ s => s.raised flag = true) hraised fun _ h hs => hs.raised h
    -- the step is another caller's, and may come after the effect as well
    have hstep : ∀ {c}, s'.object = s.object → s'.callers g = s.callers g →
        Step ⟨X, first, does'⟩ (s.had g call answer y) e (c : State ι _) →
        c = s'.had g call answer y →
        s₁.object = s'.object ∧ s₁.callers g = .calls call none ∧ s'.raised flag = true ∧
          Run (Step ⟨X, first, does'⟩) (s₁.had g call answer y) (τ ++ [e])
            (s'.had g call answer y) := by
      rintro c hobject hsame hc rfl
      obtain ⟨hobject', hcalls', -, run'⟩ := ih (hobject ▸ hlive) (hsame ▸ hcalls)
      exact ⟨hobject'.trans hobject.symm, hcalls', hs.raised hraised', run'.snoc hc⟩
    cases hs with
    | raise other => exact hstep rfl rfl (.raise other) rfl
    | fault f => exact isEmptyElim f
    | @enter g' m h =>
      have hg : g' ≠ g := by
        rintro rfl
        obtain ⟨rfl, -⟩ : _ ∧ True := by simpa [State.put] using hcalls
        exact absurd (hbefore.symm.trans hraised') (by simp)
      refine hstep rfl (by simp [State.put, hg.symm]) (.enter ?_) ?_
      · simpa [State.had, State.put, hg] using h
      · simp [State.had, State.put, Function.update_comm hg]
    | @effect g' call' answer' x h hdoes =>
      have hg : g' ≠ g := by
        rintro rfl
        simp [State.had, State.put] at hcalls
      obtain ⟨rfl, hany⟩ := hlate.after hdoes hraised' hlive
      refine hstep rfl (by simp [State.had, State.put, hg.symm]) (.effect ?_ (hany y hy)) ?_
      · simpa [State.had, State.put, hg] using h
      · simp [State.had, State.put, Function.update_comm hg]
    | @leave g' call' answer' h =>
      have hg : g' ≠ g := by
        rintro rfl
        simp [State.put] at hcalls
      refine hstep rfl (by simp [State.put, hg.symm]) (.leave ?_) ?_
      · simpa [State.had, State.put, hg] using h
      · simp [State.had, State.put, Function.update_comm hg]

theorem Linearizable.in_time {H : List (Seen ι μ α φ β)}
    (h : Linearizable ⟨X, first, does⟩ H) (hlate : Late does does' flag Live) :
    Linearizable ⟨X, first, does'⟩ H := by
  obtain ⟨τ, s, run, rfl⟩ := h
  suffices hsame : ∃ τ' t, Run (Step ⟨X, first, does'⟩) (.start _) τ' t ∧
      history τ' = history τ ∧ t = ⟨s.callers, s.raised, s.object⟩ by
    obtain ⟨τ', t, run', hhistory, -⟩ := hsame
    exact ⟨τ', t, run', hhistory⟩
  induction run with
  | nil => exact ⟨[], _, .nil, rfl, rfl⟩
  | @snoc τ s s' e run hs ih =>
    obtain ⟨τ', t, run', hhistory, rfl⟩ := ih
    -- what both do at once
    have hboth : ∀ {t'}, Step ⟨X, first, does'⟩ ⟨s.callers, s.raised, s.object⟩ e t' →
        t' = ⟨s'.callers, s'.raised, s'.object⟩ →
        ∃ τ' t, Run (Step ⟨X, first, does'⟩) (.start _) τ' t ∧ history τ' = history (τ ++ [e]) ∧
          t = ⟨s'.callers, s'.raised, s'.object⟩ := fun hs' ht' =>
      ⟨τ' ++ [e], _, run'.snoc hs', by rw [history_append, history_append, hhistory], ht'⟩
    cases hs with
    | enter h => exact hboth (.enter h) rfl
    | fault f => exact isEmptyElim f
    | raise other => exact hboth (.raise other) rfl
    | leave h => exact hboth (.leave h) rfl
    | @effect g call answer x h hdoes =>
      rcases hlate.late hdoes with hdoes | ⟨hraised, hbefore, hlive, hx, hdoes⟩
      · exact hboth (.effect h hdoes) rfl
      · obtain ⟨τ₁, τ₂, s₁, rfl, run₁, hlowered, run₂⟩ := exists_raise run' hraised
        obtain ⟨hobject, hcalls, -, run₂'⟩ := exists_had hlate run₂
          (by simp [State.raise]) hlive h hbefore hx answer
        have heffect : Step ⟨X, first, does'⟩ s₁ (.effect g answer) (s₁.had g call answer x) :=
          .effect hcalls (hobject ▸ hdoes _ hlowered)
        refine ⟨τ₁ ++ [.effect g answer] ++ [.seen (.raise flag)] ++ τ₂, _,
          ((run₁.snoc heffect).snoc (.raise flag)).append run₂', ?_, rfl⟩
        simp only [history_append] at hhistory ⊢
        simpa [history, Moment.shown, List.filterMap_cons] using hhistory

end Late

end Linear
