import Mathlib.Tactic.SplitIfs

-- Programs that make calls and go on from the replies: the rule for what holds at the end of
-- every way that one may go.
namespace Program

structure Interface where
  Call : Type
  Reply : Call → Type

inductive Prog (I : Interface) (α : Type) where
  | ret (value : α)
  | call (c : I.Call) (next : I.Reply c → Prog I α)

namespace Prog

variable {I : Interface} {α β : Type}

def bind : Prog I α → (α → Prog I β) → Prog I β
  | .ret value, f => f value
  | .call c next, f => .call c fun r => (next r).bind f

instance : Monad (Prog I) where
  pure := .ret
  bind := bind

end Prog

-- Programs that may end in a crash, which runs what they deferred.
abbrev Code (I : Interface) (ε : Type) := ExceptT ε (Prog I)

namespace Code

variable {I : Interface} {ε α : Type}

def call (c : I.Call) : Code I ε (I.Reply c) := .mk (.call c fun r => .ret (.ok r))

def ofExcept (result : Except ε α) : Code I ε α := .mk (.ret result)

def defer (cleanup : Prog I Unit) (body : Code I ε α) : Code I ε α :=
  .mk (body.run.bind fun result => cleanup.bind fun _ => .ret result)

end Code

-- What each call does to a ghost state, as a predicate transformer.
abbrev Spec (I : Interface) (γ : Type) :=
  (c : I.Call) → (I.Reply c → γ → Prop) → γ → Prop

section Wp

variable {I : Interface} {γ α β ε : Type} (Φ : Spec I γ)

def wp : Prog I α → (α → γ → Prop) → γ → Prop
  | .ret value, Q => Q value
  | .call c next, Q => Φ c fun r => wp (next r) Q

variable {Φ}

@[simp] theorem wp_ret (value : α) (Q : α → γ → Prop) : wp Φ (.ret value) Q = Q value := rfl

theorem wp_bind (p : Prog I α) (f : α → Prog I β) (Q : β → γ → Prop) :
    wp Φ (p.bind f) Q = wp Φ p fun value => wp Φ (f value) Q := by
  induction p with
  | ret value => rfl
  | call c next ih => simp only [Prog.bind, wp, ih]

-- The same for programs that may crash: a crash skips what comes next.
section Code

variable {Q : Except ε β → γ → Prop}

@[simp] theorem wp_pure (value : β) :
    wp Φ (pure value : Code I ε β) Q = Q (.ok value) := rfl

@[simp] theorem wp_ofExcept (result : Except ε β) :
    wp Φ (Code.ofExcept result : Code I ε β) Q = Q result := rfl

@[simp] theorem wp_call (c : I.Call) {Q : Except ε (I.Reply c) → γ → Prop} :
    wp Φ (Code.call c : Code I ε _) Q = Φ c fun r => Q (.ok r) := rfl

@[simp] theorem wp_code_bind (p : Code I ε α) (f : α → Code I ε β) :
    wp Φ (p >>= f : Code I ε β) Q =
      wp Φ p fun
        | .ok value => wp Φ (f value) Q
        | .error crash => Q (.error crash) := by
  refine (wp_bind (Φ := Φ) p (ExceptT.bindCont f) Q).trans ?_
  congr 1
  funext result
  cases result <;> rfl

@[simp] theorem wp_defer (cleanup : Prog I Unit) (body : Code I ε β) :
    wp Φ (Code.defer cleanup body) Q =
      wp Φ body fun result => wp Φ cleanup fun _ => Q result := by
  refine (wp_bind (Φ := Φ) body _ Q).trans ?_
  simp only [wp_bind, wp_ret]

end Code

-- A program that leaves the ghost state as it finds it, whatever that is.
section Keeps

def Keeps (Φ : Spec I γ) (p : Code I ε α) : Prop :=
  ∀ ⦃Q : Except ε α → γ → Prop⦄ ⦃g⦄, (∀ result, Q result g) → wp Φ p Q g

theorem keeps_ofExcept (result : Except ε α) : Keeps Φ (Code.ofExcept result) := fun _ _ hQ => hQ _

theorem keeps_pure (value : α) : Keeps Φ (pure value : Code I ε α) := keeps_ofExcept (.ok value)

theorem Keeps.bind {p : Code I ε α} {f : α → Code I ε β} (hp : Keeps Φ p)
    (hf : ∀ a, Keeps Φ (f a)) : Keeps Φ (p >>= f) := by
  intro Q g hQ
  rw [wp_code_bind]
  refine hp fun result => ?_
  cases result with
  | ok value => exact hf value hQ
  | error crash => exact hQ _

theorem keeps_if {p : Prop} [Decidable p] {yes no : Code I ε α} (hyes : Keeps Φ yes)
    (hno : Keeps Φ no) : Keeps Φ (if p then yes else no) := by
  split_ifs
  · exact hyes
  · exact hno

end Keeps

end Wp

-- Programs over a state, which a crash leaves as it then is.
abbrev StateCode (I : Interface) (ε σ : Type) := ExceptT ε (StateT σ (Prog I))

namespace StateCode

variable {I : Interface} {ε σ α : Type}

def call (c : I.Call) : StateCode I ε σ (I.Reply c) :=
  .mk fun s => .call c fun r => .ret (.ok r, s)

-- `f` goes on from what `p` came to, a crash or not.
def followed {β : Type} (p : StateCode I ε σ α) (f : Except ε α → StateCode I ε σ β) :
    StateCode I ε σ β :=
  .mk fun s => (p.run.run s).bind fun (result, s) => (f result).run.run s

end StateCode

section Wp

variable {I : Interface} {ε σ γ α β : Type} (Φ : Spec I γ)

def swp (p : StateCode I ε σ α) (Q : Except ε α → σ → γ → Prop) (s : σ) : γ → Prop :=
  wp Φ (p.run.run s) fun (result, s) => Q result s

variable {Φ} {Q : Except ε β → σ → γ → Prop} {s : σ}

@[simp] theorem swp_pure (value : β) :
    swp Φ (pure value : StateCode I ε σ β) Q s = Q (.ok value) s := rfl

@[simp] theorem swp_throw (crash : ε) :
    swp Φ (throw crash : StateCode I ε σ β) Q s = Q (.error crash) s := rfl

@[simp] theorem swp_get {Q : Except ε σ → σ → γ → Prop} :
    swp Φ (get : StateCode I ε σ σ) Q s = Q (.ok s) s := rfl

@[simp] theorem swp_set (s' : σ) {Q : Except ε Unit → σ → γ → Prop} :
    swp Φ (set s' : StateCode I ε σ Unit) Q s = Q (.ok ()) s' := rfl

@[simp] theorem swp_modify (f : σ → σ) {Q : Except ε Unit → σ → γ → Prop} :
    swp Φ (modify f : StateCode I ε σ Unit) Q s = Q (.ok ()) (f s) := rfl

@[simp] theorem swp_call (c : I.Call) {Q : Except ε (I.Reply c) → σ → γ → Prop} :
    swp Φ (StateCode.call c : StateCode I ε σ _) Q s = Φ c fun r => Q (.ok r) s := rfl

@[simp] theorem swp_followed (p : StateCode I ε σ α) (f : Except ε α → StateCode I ε σ β) :
    swp Φ (p.followed f) Q s = swp Φ p (fun result => swp Φ (f result) Q) s :=
  wp_bind ..

@[simp] theorem swp_bind (p : StateCode I ε σ α) (f : α → StateCode I ε σ β) :
    swp Φ (p >>= f : StateCode I ε σ β) Q s =
      swp Φ p (fun
        | .ok value => swp Φ (f value) Q
        | .error crash => Q (.error crash)) s := by
  refine (wp_bind (Φ := Φ) (p.run.run s) _ _).trans ?_
  unfold swp
  congr 1
  funext ⟨result, s⟩
  cases result <;> rfl

end Wp

-- One way a program may go: the replies to its calls, in order, and what it comes to.
section Yields

variable {I : Interface} {γ α : Type}

abbrev Exchange (I : Interface) := (c : I.Call) × I.Reply c

inductive Yields : Prog I α → List (Exchange I) → α → Prop where
  | ret {value} : Yields (.ret value) [] value
  | call {c next τ value} (r : I.Reply c) :
      Yields (next r) τ value → Yields (.call c next) (⟨c, r⟩ :: τ) value

-- A ghost state that every reply takes along `R`.
def following (R : γ → Exchange I → γ → Prop) : Spec I γ :=
  fun c Q g => ∀ r g', R g ⟨c, r⟩ g' → Q r g'

inductive Follows (R : γ → Exchange I → γ → Prop) : γ → List (Exchange I) → γ → Prop where
  | nil {g} : Follows R g [] g
  | cons {g g' g'' e τ} : R g e g' → Follows R g' τ g'' → Follows R g (e :: τ) g''

theorem Yields.followed {R : γ → Exchange I → γ → Prop} {p : Prog I α}
    {τ : List (Exchange I)} {value : α} (h : Yields p τ value) {g g' : γ}
    (hτ : Follows R g τ g') {Q : α → γ → Prop} (hp : wp (following R) p Q g) : Q value g' := by
  induction h generalizing g with
  | ret =>
    cases hτ
    exact hp
  | call r _ ih =>
    cases hτ with
    | cons hstep hτ => exact ih hτ (hp r _ hstep)

-- One that is a note of the replies.
def noting (note : γ → Exchange I → γ) : Spec I γ := fun c Q g => ∀ r, Q r (note g ⟨c, r⟩)

theorem noting_eq (note : γ → Exchange I → γ) :
    noting note = following fun g e g' => g' = note g e := by
  funext c Q g
  simp [noting, following]

theorem follows_note (note : γ → Exchange I → γ) (τ : List (Exchange I)) (g : γ) :
    Follows (fun g e g' => g' = note g e) g τ (τ.foldl note g) := by
  induction τ generalizing g with
  | nil => exact .nil
  | cons e τ ih => exact .cons rfl (ih _)

theorem Yields.noted {note : γ → Exchange I → γ} {p : Prog I α} {τ : List (Exchange I)}
    {value : α} (h : Yields p τ value) {Q : α → γ → Prop} {g : γ}
    (hp : wp (noting note) p Q g) : Q value (τ.foldl note g) := by
  rw [noting_eq] at hp
  exact h.followed (follows_note note τ g) hp

end Yields

end Program
