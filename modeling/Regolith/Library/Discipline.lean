import Regolith.Library.Goroutine

-- A proof rule for objects whose methods go through a lock: one walk over the code
-- of each method, and what it promises holds in every run. The lock guards a view,
-- the flags that are not outside flags and a ghost kept of the calls.
namespace Goroutine

open RwLock (Mode)

structure View (S : Signature) (γ : Type) where
  flags : S.Flag → Bool
  ghost : γ

-- `settled` is what holds whenever nobody is on the write side, `leaves` what holds when
-- somebody gives a side back, and `always` what holds throughout. `post` is about the view at the time the lock was taken and what the caller
-- did from then on.
structure Discipline (ι : Type) (S : Signature) (γ : Type) where
  ghost : γ
  started : γ → S.Call → γ
  finished : γ → (c : S.Call) → S.Reply c → γ
  settled : View S γ → Prop
  leaves : Mode → View S γ → Prop
  always : View S γ → Prop
  allows : View S γ → Mode → S.Call → Prop
  post : S.Method → View S γ → List (Event ι S) → S.Answer → Prop

-- Where a method stands to the lock.
inductive Stand (ι : Type) (S : Signature) (γ : Type) where
  | before
  | inside (held : Mode) (entry : View S γ) (mine : List (Event ι S)) (now : View S γ)
  | after (entry : View S γ) (mine : List (Event ι S))

section Rule

variable {ι : Type} [DecidableEq ι] {S : Signature} [DecidableEq S.Flag] {γ : Type}
variable (o : Object S) (D : Discipline ι S γ)

def View.step (x : View S γ) : Event ι S → View S γ
  | .access _ flag _ new =>
      if o.outside flag then x else { x with flags := Function.update x.flags flag new }
  | .start _ c => { x with ghost := D.started x.ghost c }
  | .finish _ c r => { x with ghost := D.finished x.ghost c r }
  | _ => x

def view (τ : List (Event ι S)) : View S γ :=
  τ.foldl (View.step o D) ⟨o.flags, D.ghost⟩

-- What a step may do to the view: nothing, under the read side.
def Discipline.Moves (held : Mode) (x x' : View S γ) : Prop :=
  (held = .read → x' = x) ∧ D.always x'

def Safe (g : ι) (m : S.Method) : Prog S → Stand ι S γ → Prop
  | .lock mode next, .before => ∀ x, D.settled x → Safe g m next (.inside mode x [] x)
  | .unlock mode next, .inside held entry mine now =>
      mode = held ∧ D.leaves held now ∧ Safe g m next (.after entry (mine ++ [.unlock g mode]))
  | .access flag new next, .inside held entry mine now =>
      if o.outside flag then
        ∀ old, new old = old ∧
          Safe g m (next old) (.inside held entry (mine ++ [.access g flag old (new old)]) now)
      else
        let e : Event ι S := .access g flag (now.flags flag) (new (now.flags flag))
        D.Moves held now (now.step o D e) ∧
          Safe g m (next (now.flags flag)) (.inside held entry (mine ++ [e]) (now.step o D e))
  | .call c next, .inside held entry mine now =>
      let called := now.step o D (.start g c)
      D.allows now held c ∧ D.Moves held now called ∧
        ∀ r, D.Moves held called (called.step o D (.finish g c r)) ∧
          Safe g m (next r) (.inside held entry (mine ++ [.start g c] ++ [.finish g c r])
            (called.step o D (.finish g c r)))
  | .ret answer, .after entry mine => D.post m entry mine answer
  | _, _ => False

-- As `Safe`, with the call out.
def Awaits (g : ι) (m : S.Method) (c : S.Call) (next : S.Reply c → Prog S) :
    Stand ι S γ → Prop
  | .inside held entry mine now =>
      ∀ r, D.Moves held now (now.step o D (.finish g c r)) ∧
        Safe o D g m (next r) (.inside held entry (mine ++ [.finish g c r])
          (now.step o D (.finish g c r)))
  | _ => False

def Frame.Safe (g : ι) (f : Frame S) (st : Stand ι S γ) : Prop :=
  if f.calling then ∃ c next, f.code = .call c next ∧ Awaits o D g f.method c next st
  else Goroutine.Safe o D g f.method f.code st

-- The trace since `g` last took the lock.
def Since (g : ι) (τ : List (Event ι S)) (entry : View S γ) (mine : List (Event ι S)) : Prop :=
  ∃ pre mode mid, τ = pre ++ .lock g mode :: mid ∧ (∀ e ∈ own g mid, e.isLock = false) ∧
    entry = view o D pre ∧ mine = own g mid

def Fits (g : ι) (τ : List (Event ι S)) (lk : RWMutex ι) : Stand ι S γ → Prop
  | .before => lk.held g = none
  | .inside held entry mine now =>
      lk.held g = some held ∧ now = view o D τ ∧ Since o D g τ entry mine
  | .after entry mine => lk.held g = none ∧ Since o D g τ entry mine

def Stands (g : ι) (τ : List (Event ι S)) (lk : RWMutex ι) (f : Frame S) : Prop :=
  ∃ st, f.Safe o D g st ∧ Fits o D g τ lk st

structure Discipline.Kept : Prop where
  settled_first : D.settled ⟨o.flags, D.ghost⟩
  settled_always : ∀ {x}, D.settled x → D.always x
  leaves_settled : ∀ {held x}, D.leaves held x → D.settled x
  bodies : ∀ g m, Safe o D g m (o.body m) .before

structure Sound (τ : List (Event ι S)) (s : State ι S) : Prop where
  flags : ∀ {flag}, o.outside flag = false → s.flags flag = (view o D τ).flags flag
  always : D.always (view o D τ)
  settled : (∀ g, s.lk.held g ≠ some .write) → D.settled (view o D τ)
  idle : ∀ {g}, s.frames g = none → s.lk.held g = none
  stands : ∀ {g f}, s.frames g = some f → Stands o D g τ s.lk f

variable {o D} {g g' : ι} {τ : List (Event ι S)} {s : State ι S} {e : Event ι S}
  {entry : View S γ} {mine : List (Event ι S)}

omit [DecidableEq ι] in
@[simp] theorem view_nil : view o D ([] : List (Event ι S)) = ⟨o.flags, D.ghost⟩ := rfl

omit [DecidableEq ι] in
theorem view_snoc (τ : List (Event ι S)) (e : Event ι S) :
    view o D (τ ++ [e]) = (view o D τ).step o D e := by
  simp [view]

omit [DecidableEq S.Flag] in
theorem own_snoc_self (h : e.actor = some g) : own g (τ ++ [e]) = own g τ ++ [e] := by
  simp [own, h]

omit [DecidableEq S.Flag] in
theorem own_snoc_of_ne (h : e.actor ≠ some g) : own g (τ ++ [e]) = own g τ := by
  simp [own, h]

-- The rules of the walk, one for each instruction.
section Walk

variable {m : S.Method} {held mode : Mode} {flag : S.Flag} {value : Bool} {c : S.Call}
  {now : View S γ} {next : Prog S}

omit [DecidableEq ι]

def View.set (x : View S γ) (flag : S.Flag) (value : Bool) : View S γ :=
  { x with flags := Function.update x.flags flag value }

namespace Safe

theorem lock (hnext : ∀ x, D.settled x → Safe o D g m next (.inside mode x [] x)) :
    Safe o D g m (.lock mode next) .before := hnext

theorem unlock (hleaves : D.leaves held now)
    (hnext : Safe o D g m next (.after entry (mine ++ [.unlock g held]))) :
    Safe o D g m (.unlock held next) (.inside held entry mine now) := ⟨rfl, hleaves, hnext⟩

theorem ret {answer : S.Answer} (hpost : D.post m entry mine answer) :
    Safe o D g m (.ret answer) (.after entry mine) := hpost

theorem load_outside {next : Bool → Prog S} (hout : o.outside flag = true)
    (hnext : ∀ old,
      Safe o D g m (next old) (.inside held entry (mine ++ [.access g flag old old]) now)) :
    Safe o D g m (.load flag next) (.inside held entry mine now) := by
  simp only [Prog.load, Safe, hout, if_true]
  exact fun old => ⟨rfl, hnext old⟩

theorem load {next : Bool → Prog S} (hin : o.outside flag = false) (halways : D.always now)
    (hvalue : now.flags flag = value)
    (hnext : Safe o D g m (next value)
      (.inside held entry (mine ++ [.access g flag value value]) now)) :
    Safe o D g m (.load flag next) (.inside held entry mine now) := by
  have hstep : now.step o D (.access g flag value value) = now := by
    simp [View.step, hin, ← hvalue]
  subst hvalue
  simp only [Prog.load, Safe, hin, if_false, Bool.false_eq_true, id, hstep]
  exact ⟨⟨fun _ => rfl, halways⟩, hnext⟩

theorem store (hin : o.outside flag = false) (halways : D.always (now.set flag value))
    (hnext : Safe o D g m next (.inside .write entry
      (mine ++ [.access g flag (now.flags flag) value]) (now.set flag value))) :
    Safe o D g m (.store flag value next) (.inside .write entry mine now) := by
  simp only [Prog.store, Safe, hin, if_false, Bool.false_eq_true]
  have hstep : ∀ old, now.step o D (.access g flag old value) = now.set flag value := by
    simp [View.step, View.set, hin]
  rw [hstep]
  exact ⟨⟨nofun, halways⟩, hnext⟩

theorem compareAndSwap {old new : Bool} {next : Bool → Prog S} (hin : o.outside flag = false)
    (hvalue : (if now.flags flag = old then new else now.flags flag) = value)
    (halways : D.always (now.set flag value))
    (hnext : Safe o D g m (next (now.flags flag == old)) (.inside .write entry
      (mine ++ [.access g flag (now.flags flag) value]) (now.set flag value))) :
    Safe o D g m (.compareAndSwap flag old new next) (.inside .write entry mine now) := by
  have hstep : now.step o D (.access g flag (now.flags flag) value) = now.set flag value := by
    simp [View.step, View.set, hin]
  simp only [Prog.compareAndSwap, Safe, hin, if_false, Bool.false_eq_true, hvalue, hstep]
  exact ⟨⟨nofun, halways⟩, hnext⟩

-- A call that the ghost takes no note of.
theorem call_unnoted {next : S.Reply c → Prog S} (hallows : D.allows now held c)
    (halways : D.always now) (hstarted : D.started now.ghost c = now.ghost)
    (hfinished : ∀ r, D.finished now.ghost c r = now.ghost)
    (hnext : ∀ r, Safe o D g m (next r)
      (.inside held entry (mine ++ [.start g c] ++ [.finish g c r]) now)) :
    Safe o D g m (.call c next) (.inside held entry mine now) := by
  have hstart : now.step o D (.start g c) = now := by simp [View.step, hstarted]
  have hfinish : ∀ r, now.step o D (.finish g c r) = now := by simp [View.step, hfinished]
  simp only [Safe, hstart, hfinish]
  exact ⟨hallows, ⟨fun _ => rfl, halways⟩, fun r => ⟨⟨fun _ => rfl, halways⟩, hnext r⟩⟩

theorem call_write {next : S.Reply c → Prog S} (hallows : D.allows now .write c)
    (halways : D.always ⟨now.flags, D.started now.ghost c⟩)
    (hnext : ∀ r, D.always ⟨now.flags, D.finished (D.started now.ghost c) c r⟩ ∧
      Safe o D g m (next r) (.inside .write entry (mine ++ [.start g c] ++ [.finish g c r])
        ⟨now.flags, D.finished (D.started now.ghost c) c r⟩)) :
    Safe o D g m (.call c next) (.inside .write entry mine now) :=
  ⟨hallows, ⟨nofun, halways⟩, fun r => ⟨⟨nofun, (hnext r).1⟩, (hnext r).2⟩⟩

end Safe

end Walk

omit [DecidableEq S.Flag] in
theorem own_subset (g : ι) (τ : List (Event ι S)) : own g τ ⊆ τ :=
  List.filter_sublist.subset

namespace Since

theorem of_lock (τ : List (Event ι S)) (g : ι) (mode : Mode) :
    Since o D g (τ ++ [.lock g mode]) (view o D τ) [] :=
  ⟨τ, mode, [], rfl, by simp [own], rfl, rfl⟩

theorem snoc (h : Since o D g τ entry mine) (he : e.actor = some g) (hlock : e.isLock = false) :
    Since o D g (τ ++ [e]) entry (mine ++ [e]) := by
  obtain ⟨pre, mode, mid, rfl, hmid, hentry, rfl⟩ := h
  refine ⟨pre, mode, mid ++ [e], by simp, ?_, hentry, (own_snoc_self he).symm⟩
  intro e' he'
  rw [own_snoc_self he] at he'
  rcases List.mem_append.mp he' with he' | he'
  · exact hmid e' he'
  · rw [List.mem_singleton.mp he', hlock]

theorem other (h : Since o D g τ entry mine) (he : e.actor ≠ some g) :
    Since o D g (τ ++ [e]) entry mine := by
  obtain ⟨pre, mode, mid, rfl, hmid, hentry, rfl⟩ := h
  have hown := own_snoc_of_ne (τ := mid) he
  exact ⟨pre, mode, mid ++ [e], by simp, by rwa [hown], hentry, hown.symm⟩

theorem eq_of_free {pre mid : List (Event ι S)} {mode : Mode}
    (h : Since o D g (pre ++ .lock g mode :: mid) entry mine)
    (hmid : ∀ e ∈ own g mid, e.isLock = false) : entry = view o D pre ∧ mine = own g mid := by
  -- of two last times that `g` took the lock, neither is before the other
  have hlast : ∀ {l mid' : List (Event ι S)} {mode'},
      l ++ .lock g mode' :: mid' ≠ mid ∨ ∃ e ∈ own g mid, e.isLock = true := by
    intro l mid' mode'
    by_cases hl : l ++ .lock g mode' :: mid' = mid
    · exact .inr ⟨.lock g mode', by simp [← hl, own, Event.actor], rfl⟩
    · exact .inl hl
  obtain ⟨pre', mode', mid', heq, hmid', rfl, rfl⟩ := h
  rcases List.append_eq_append_iff.mp heq with ⟨l, rfl, hl⟩ | ⟨l, rfl, hl⟩
  · cases l with
    | nil => simp_all
    | cons e l =>
      obtain ⟨rfl, rfl⟩ := List.cons_eq_cons.mp hl
      have := hmid (.lock g mode') (by simp [own, Event.actor])
      simp [Event.isLock] at this
  · cases l with
    | nil => simp_all
    | cons e l =>
      obtain ⟨rfl, rfl⟩ := List.cons_eq_cons.mp hl
      have := hmid' (.lock g mode) (by simp [own, Event.actor])
      simp [Event.isLock] at this

end Since

theorem Stands.of_inside {f : Frame S} {lk : RWMutex ι} {held : Mode}
    (hsafe : f.Safe o D g (.inside held entry mine (view o D τ)))
    (hheld : lk.held g = some held) (hsince : Since o D g τ entry mine) : Stands o D g τ lk f :=
  ⟨_, hsafe, hheld, rfl, hsince⟩

theorem Stands.of_after {f : Frame S} {lk : RWMutex ι} (hsafe : f.Safe o D g (.after entry mine))
    (hheld : lk.held g = none) (hsince : Since o D g τ entry mine) : Stands o D g τ lk f :=
  ⟨_, hsafe, hheld, hsince⟩

-- A step of somebody else, with the view as it was if the lock is held here.
theorem Stands.other {f : Frame S} {lk lk' : RWMutex ι} (h : Stands o D g τ lk f)
    (he : e.actor ≠ some g) (hlk : lk'.held g = lk.held g)
    (hview : lk.held g ≠ none → view o D (τ ++ [e]) = view o D τ) :
    Stands o D g (τ ++ [e]) lk' f := by
  obtain ⟨st, hsafe, hfits⟩ := h
  refine ⟨st, hsafe, ?_⟩
  cases st with
  | before => exact hlk.trans hfits
  | inside held entry mine now =>
    obtain ⟨hheld, hnow, hsince⟩ := hfits
    refine ⟨hlk.trans hheld, ?_, hsince.other he⟩
    rw [hview (by simp [hheld]), hnow]
  | after entry mine => exact ⟨hlk.trans hfits.1, hfits.2.other he⟩

namespace Sound

theorem first (hD : D.Kept o) : Sound o D [] (.first o : State ι S) where
  flags _ := rfl
  always := hD.settled_always hD.settled_first
  settled _ := hD.settled_first
  idle _ := RWMutex.free_held _
  stands h := by simp [State.first] at h

-- A step that leaves the view alone, with what it makes of its actor.
theorem quiet (h : Sound o D τ s) {lk : RWMutex ι} {frame : Option (Frame S)}
    (he : e.actor = some g) (hview : view o D (τ ++ [e]) = view o D τ)
    (hlk : ∀ g' ≠ g, lk.held g' = s.lk.held g')
    (hsettled : (∀ g', lk.held g' ≠ some .write) → D.settled (view o D τ))
    (hidle : frame = none → lk.held g = none)
    (hstands : ∀ f ∈ frame, Stands o D g (τ ++ [e]) lk f) :
    Sound o D (τ ++ [e]) { s.put g frame with lk := lk } where
  flags hout := by rw [hview]; exact h.flags hout
  always := by rw [hview]; exact h.always
  settled hfree := by rw [hview]; exact hsettled hfree
  idle {g'} hg' := by
    by_cases hg : g' = g
    · subst hg
      exact hidle (by simpa using hg')
    · rw [State.put_frames_of_ne s frame hg] at hg'
      exact (hlk g' hg).trans (h.idle hg')
  stands {g' f} hf := by
    by_cases hg : g' = g
    · subst hg
      exact hstands f (by simpa using hf)
    · rw [State.put_frames_of_ne s frame hg] at hf
      exact (h.stands hf).other (by simp [he, Ne.symm hg]) (hlk g' hg) fun _ => hview

-- A step under the lock.
theorem inside (h : Sound o D τ s) {held : Mode} {flags : S.Flag → Bool} {f : Frame S}
    (he : e.actor = some g) (hheld : s.lk.held g = some held)
    (hmoves : D.Moves held (view o D τ) (view o D (τ ++ [e])))
    (hflags : ∀ flag, o.outside flag = false →
      flags flag = (view o D (τ ++ [e])).flags flag)
    (hstands : Stands o D g (τ ++ [e]) s.lk f) :
    Sound o D (τ ++ [e]) { s.put g (some f) with flags := flags } where
  flags hout := hflags _ hout
  always := hmoves.2
  settled hfree := by
    have hread : held = .read := by
      cases held with
      | read => rfl
      | write => exact absurd hheld (hfree g)
    rw [hmoves.1 hread]
    exact h.settled hfree
  idle {g'} hg' := by
    by_cases hg : g' = g
    · subst hg
      simp [State.put] at hg'
    · rw [State.put_frames_of_ne s _ hg] at hg'
      exact h.idle hg'
  stands {g' f'} hf := by
    by_cases hg : g' = g
    · subst hg
      obtain rfl : f = f' := by simpa [State.put] using hf
      exact hstands
    · rw [State.put_frames_of_ne s _ hg] at hf
      refine (h.stands hf).other (by simp [he, Ne.symm hg]) rfl fun hg' => ?_
      cases held with
      | read => exact hmoves.1 rfl
      | write => exact absurd (RWMutex.held_write_alone hheld hg') hg

theorem step (hD : D.Kept o) (h : Sound o D τ s) {s' : State ι S} (hs : Step o s e s') :
    Sound o D (τ ++ [e]) s' := by
  cases hs with
  | @raise flag hout =>
    have hview : view o D (τ ++ [.raise flag]) = view o D τ := view_snoc τ _
    refine ⟨?_, by rw [hview]; exact h.always, fun hfree => by rw [hview]; exact h.settled hfree,
      h.idle, fun hf => (h.stands hf).other (by simp [Event.actor]) rfl fun _ => hview⟩
    intro other hother
    have hne : other ≠ flag := fun heq => by simp [heq, hout] at hother
    rw [hview]
    simpa [hne] using h.flags hother
  | @enter g m hf =>
    refine h.quiet rfl (view_snoc τ _) (fun _ _ => rfl) h.settled (by simp) ?_
    rintro f ⟨⟩
    exact ⟨.before, hD.bodies g m, h.idle hf⟩
  | @lock g m mode next lk hf hlk =>
    obtain ⟨st, hsafe, hfits⟩ := h.stands hf
    have hsettled := h.settled (RWMutex.acquire_no_writer hlk)
    refine h.quiet rfl (view_snoc τ _) (fun g' hg => ?_) (fun _ => hsettled) (by simp) ?_
    · simp [RWMutex.acquire_held hlk, hg]
    · rintro f ⟨⟩
      cases st with
      | before =>
        have hview : view o D (τ ++ [.lock g mode]) = view o D τ := view_snoc τ _
        have hnext : Frame.Safe o D g ⟨m, next, false⟩
            (.inside mode (view o D τ) [] (view o D (τ ++ [.lock g mode]))) := by
          rw [hview]
          exact hsafe _ hsettled
        exact .of_inside hnext (by simp [RWMutex.acquire_held hlk]) (.of_lock τ g mode)
      | inside | after => exact hsafe.elim
  | @unlock g m mode next hf hlk =>
    obtain ⟨st, hsafe, hfits⟩ := h.stands hf
    cases st with
    | inside held entry mine now =>
      obtain ⟨hmode, hleaves, hnext⟩ := hsafe
      obtain ⟨-, rfl, hsince⟩ := hfits
      have hsettled := hD.leaves_settled hleaves
      refine h.quiet rfl (view_snoc τ _) (fun g' hg => ?_) (fun _ => hsettled) (by simp) ?_
      · simp [RWMutex.release_held hlk, hg]
      · rintro f ⟨⟩
        have hafter : Frame.Safe o D g ⟨m, next, false⟩ (.after entry (mine ++ [.unlock g mode])) :=
          hnext
        exact .of_after hafter
          (by simp [RWMutex.release_held hlk]) (hsince.snoc rfl rfl)
    | before | after => exact hsafe.elim
  | @access g m flag new next hf =>
    obtain ⟨st, hsafe, hfits⟩ := h.stands hf
    cases st with
    | inside held entry mine now =>
      obtain ⟨hheld, rfl, hsince⟩ := hfits
      by_cases hout : o.outside flag = true
      · simp only [Frame.Safe, Goroutine.Safe, hout, if_true, Bool.false_eq_true, if_false] at hsafe
        obtain ⟨hold, hnext⟩ := hsafe (s.flags flag)
        have hview : view o D (τ ++ [.access g flag (s.flags flag) (new (s.flags flag))]) =
            view o D τ := by
          rw [view_snoc]
          simp [View.step, hout]
        refine h.inside rfl hheld (by rw [hview]; exact ⟨fun _ => rfl, h.always⟩) ?_ ?_
        · intro other hother
          have hne : other ≠ flag := fun heq => by simp [heq, hout] at hother
          rw [hview]
          simpa [hne] using h.flags hother
        · rw [← hview] at hnext
          exact .of_inside hnext hheld (hsince.snoc rfl rfl)
      · simp only [Frame.Safe, Goroutine.Safe, hout, if_false, Bool.false_eq_true] at hsafe
        have hflag := h.flags (Bool.eq_false_iff.mpr hout)
        rw [hflag]
        obtain ⟨hmoves, hnext⟩ := hsafe
        rw [← view_snoc] at hmoves hnext
        refine h.inside rfl hheld hmoves ?_ (.of_inside hnext hheld (hsince.snoc rfl rfl))
        intro other hother
        rw [view_snoc]
        by_cases hne : other = flag
        · subst hne
          simp [View.step, hout]
        · simpa [View.step, hout, hne] using h.flags hother
    | before | after => exact hsafe.elim
  | @start g m c next hf =>
    obtain ⟨st, hsafe, hfits⟩ := h.stands hf
    cases st with
    | inside held entry mine now =>
      obtain ⟨hheld, rfl, hsince⟩ := hfits
      obtain ⟨-, hmoves, hnext⟩ := hsafe
      rw [← view_snoc] at hmoves hnext
      have hawaits : Frame.Safe o D g ⟨m, .call c next, true⟩
          (.inside held entry (mine ++ [.start g c]) (view o D (τ ++ [.start g c]))) :=
        ⟨c, next, rfl, hnext⟩
      refine h.inside rfl hheld hmoves (fun flag hout => ?_)
        (.of_inside hawaits hheld (hsince.snoc rfl rfl))
      rw [view_snoc]
      exact h.flags hout
    | before | after => exact hsafe.elim
  | @finish g m c next r hf =>
    obtain ⟨st, hsafe, hfits⟩ := h.stands hf
    obtain ⟨c', next', hcode, hsafe⟩ := hsafe
    obtain ⟨rfl, hnexts⟩ := Prog.call.inj hcode
    obtain rfl := eq_of_heq hnexts
    cases st with
    | inside held entry mine now =>
      obtain ⟨hheld, rfl, hsince⟩ := hfits
      obtain ⟨hmoves, hnext⟩ := hsafe r
      rw [← view_snoc] at hmoves hnext
      refine h.inside rfl hheld hmoves (fun flag hout => ?_)
        (.of_inside hnext hheld (hsince.snoc rfl rfl))
      rw [view_snoc]
      exact h.flags hout
    | before | after => exact hsafe.elim
  | @leave g m answer hf =>
    obtain ⟨st, hsafe, hfits⟩ := h.stands hf
    have hheld : s.lk.held g = none := by
      cases st with
      | after entry mine => exact hfits.1
      | before | inside => exact hsafe.elim
    exact h.quiet rfl (view_snoc τ _) (fun _ _ => rfl) h.settled (fun _ => hheld) (by simp)

end Sound

namespace Discipline.Kept

variable {pre mid post : List (Event ι S)}

theorem sound (hD : D.Kept o) (run : Runs o τ s) : Sound o D τ s :=
  run.invariant (Sound.first hD) fun _ h hs => h.step hD hs

-- A call is made as the discipline allows, and under the write side nothing else is out.
theorem allowed (hD : D.Kept o) {c : S.Call} (run : Runs o (pre ++ .start g c :: post) s) :
    ∃ held, D.allows (view o D pre) held c ∧
      (held = .write → ∀ g', pending g' pre = none) := by
  obtain ⟨s₁, s₂, run, hs⟩ := run.at_event
  have hsound := hD.sound run
  cases hs with
  | @start g m c next hf =>
    obtain ⟨st, hsafe, hfits⟩ := hsound.stands hf
    cases st with
    | inside held entry mine now =>
      obtain ⟨hheld, rfl, -⟩ := hfits
      refine ⟨held, hsafe.1, fun hwrite g' => ?_⟩
      subst hwrite
      rw [Runs.pending_eq run]
      by_cases hg : g' = g
      · simp [hg, hf]
      · -- whoever else is on the way holds no side of the lock, and calls under one
        cases hf' : s₁.frames g' with
        | none => rfl
        | some f =>
          obtain ⟨st, hsafe, hfits⟩ := hsound.stands hf'
          have hfree : s₁.lk.held g' = none := by
            by_contra hheld'
            exact hg (RWMutex.held_write_alone hheld hheld')
          cases hout : f.out with
          | none => simpa using hout
          | some c' =>
            have hcalling : f.calling = true := by
              cases f with
              | mk m code calling => cases calling <;> simp_all
            simp only [Frame.Safe, hcalling, if_true] at hsafe
            obtain ⟨_, _, _, hawaits⟩ := hsafe
            cases st with
            | inside held' => exact absurd hfits.1 (by simp [hfree])
            | before | after => exact hawaits.elim
    | before | after => exact hsafe.elim

theorem unlocked (hD : D.Kept o) {mode : Mode} (run : Runs o (pre ++ .unlock g mode :: post) s) :
    D.leaves mode (view o D pre) := by
  obtain ⟨s₁, s₂, run, hs⟩ := run.at_event
  cases hs with
  | unlock hf hlk =>
    obtain ⟨st, hsafe, hfits⟩ := (hD.sound run).stands hf
    cases st with
    | inside held entry mine now =>
      obtain ⟨rfl, hleaves, -⟩ := hsafe
      exact hfits.2.1 ▸ hleaves
    | before | after => exact hsafe.elim

-- How a method ends, after the last time it took the lock.
theorem left (hD : D.Kept o) {m : S.Method} {answer : S.Answer}
    (run : Runs o (pre ++ .leave g m answer :: post) s) :
    ∃ entry mine, Since o D g pre entry mine ∧ D.post m entry mine answer := by
  obtain ⟨s₁, s₂, run, hs⟩ := run.at_event
  cases hs with
  | leave hf =>
    obtain ⟨st, hsafe, hfits⟩ := (hD.sound run).stands hf
    cases st with
    | after entry mine => exact ⟨entry, mine, hfits.2, hsafe⟩
    | before | inside => exact hsafe.elim

theorem post_of (hD : D.Kept o) (run : Runs o τ s) {m : S.Method} {answer : S.Answer}
    (visit : Visit τ g m answer pre mid) : D.post m (view o D pre) (own g mid) answer := by
  obtain ⟨mode, post, rfl⟩ := visit.split
  obtain ⟨entry, mine, hsince, hpost⟩ := hD.left run
  obtain ⟨rfl, rfl⟩ := hsince.eq_of_free visit.last
  exact hpost

-- Nobody here changes an outside flag.
theorem outside_raised (hD : D.Kept o) (run : Runs o τ s) {flag : S.Flag}
    (hout : o.outside flag = true) (hup : s.flags flag = true) :
    o.flags flag = true ∨ .raise flag ∈ τ := by
  refine run.invariant (I := fun τ s => s.flags flag = true → o.flags flag = true ∨ .raise flag ∈ τ)
    Or.inl ?_ hup
  intro τ s e s' run ih hs hup
  have hlater : s.flags flag = true → o.flags flag = true ∨ Event.raise flag ∈ τ ++ [e] :=
    fun hbefore => (ih hbefore).imp_right (List.mem_append_left _)
  cases hs with
  | @raise other hother =>
    by_cases hflag : flag = other
    · exact .inr (by simp [hflag])
    · exact hlater (by simpa [hflag] using hup)
  | @access g m other new next hf =>
    by_cases hflag : flag = other
    · subst hflag
      obtain ⟨st, hsafe, hfits⟩ := (hD.sound run).stands hf
      cases st with
      | inside held entry mine now =>
        simp only [Frame.Safe, Goroutine.Safe, hout, if_true, Bool.false_eq_true, if_false] at hsafe
        refine hlater ?_
        rw [← (hsafe (s.flags flag)).1]
        simpa using hup
      | before | after => exact hsafe.elim
    · exact hlater (by simpa [hflag] using hup)
  | _ => exact hlater hup

theorem outside_read (hD : D.Kept o) {flag : S.Flag} {new : Bool}
    (run : Runs o (pre ++ .access g flag true new :: post) s) (hout : o.outside flag = true) :
    o.flags flag = true ∨ .raise flag ∈ pre := by
  obtain ⟨s₁, s₂, run, hs⟩ := run.at_event
  exact hD.outside_raised run hout hs.access_old

end Discipline.Kept

end Rule

end Goroutine
